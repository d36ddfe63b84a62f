import Netcfgd.Staging

/-!
# A staged request runs once

Over any calls of any callers, at times that do not go back : a caller has one request staged at
most, what runs from staging is the pieces its caller sent, in order and within a minute, and no
caller is told of an answer made for another (`staged_requests`).

A request is let go of when it is run, unless it is run on the thread of the job, when it stays
until its caller asks for what came of it. Until then `do` runs it a second time
(`do_runs_it_again`), and so does its caller once it has asked for the answer by the line itself.
In a run that does neither (`Meets`) no staged request runs twice.
-/

namespace Netcfgd.Ask

open Netcfgd.Json (ascii asciis)
open Netcfgd.Pages

/-! ## A run -/

section Runs

variable {ρ : Type*} (read : Bytes → Except Bytes ρ) (observes : ρ → Bool)

/-- An act and the daemon it meets. -/
structure Met where
  daemon : Daemon
  act : Act

/-- A run, and the daemon it leaves. -/
structure Run where
  met : List Met := []
  daemon : Daemon := {}

def Run.step (r : Run) (a : Act) : Run where
  met := r.met ++ [⟨r.daemon, a⟩]
  daemon := serve read observes r.daemon a.event

/-- The run of some acts. -/
def runOf (acts : List Act) : Run := acts.foldl (Run.step read observes) {}

/-- Time does not go back. -/
def Timely (acts : List Act) : Prop := (acts.filterMap Act.time).Pairwise (· ≤ ·)

/-- What a caller has staged, by what it sent : the pieces accepted from the one at offset 0 on,
and how often they were run. -/
structure Staging where
  pieces : List Piece := []
  runs : ℕ := 0
  deriving DecidableEq, Repr

/-- A call that adds a piece, at offset 0 the first of another staging. -/
def Staging.add (s : Staging) (p : Piece) : Staging :=
  if p.offset = 0 then ⟨[p], 0⟩ else { s with pieces := s.pieces ++ [p] }

def Staging.after (c : Caller) (s : Staging) (m : Met) : Staging :=
  match (accepted m.daemon m.act).filter fun p => p.1 = c with
  | some (_, p) => s.add p
  | none =>
    match (ranStaged read observes m.daemon m.act).filter fun ran => ran.1 = c with
    | some _ => { s with runs := s.runs + 1 }
    | none => s

/-- What a caller has staged in a run. -/
def stagingOf (met : List Met) (c : Caller) : Staging :=
  met.foldl (Staging.after read observes c) {}

/-! ## What the law is -/

def InOrder : ℕ → List Piece → Prop
  | _, [] => True
  | start, p :: rest => p.offset = start ∧ InOrder (start + p.bytes.length) rest

def joinedPieces (pieces : List Piece) : Bytes := pieces.flatMap Piece.bytes

/-- A request is the one its pieces were sent for : all of them, in order from offset 0, each with
its length and digest, and each within a minute of the first. -/
structure Whole (pieces : List Piece) (named : UInt64) (line : Bytes) : Prop where
  bytes : line = joinedPieces pieces
  order : InOrder 0 pieces
  total : ∀ p ∈ pieces, p.total = line.length
  digests : ∀ p ∈ pieces, p.digest = named
  digest : Pages.digest line = named
  minute : ∃ first, pieces.head? = some first ∧ ∀ p ∈ pieces, p.now < first.now + 60000

def Made.result : Made → Except Bytes Bytes
  | before result | answered result | later result => result

/-- What was made for a caller : by the dispatcher on its call, or by the thread of its job. -/
def madeFor (m : Met) (c : Caller) : List (Except Bytes Bytes) :=
  match m.act with
  | .ask c' _ made _ _ _ => if c' = c then [made.result] else []
  | .finished result =>
    match m.daemon.job with
    | some job => if job.caller = c then [result] else []
    | none => []
  | .askPart .. | .carryOut .. => []

/-- An answer as it is kept : `the page carries the line without its newline`. -/
def trimmed (out : Bytes) : Bytes := (out.reverse.dropWhile (· = ascii '\n')).reverse

/-- What `ask` says of itself. -/
def ownWords : List Bytes :=
  [asciis "`ask` takes an offset and a request: ask FROM \x7b\"request\":...\x7d",
   asciis ("no whole request is staged under that digest; send it with " ++ "askpart from 0"),
   asciis ("that answer is no longer kept, and the request " ++
      "changes the machine, so it is not run again to make another; ask from 0 for a new one"),
   asciis "the request was not answered",
   workingText]

/-- What a caller may be told, by what was made for whom : an answer made for it, or a refusal,
which is the daemon's own, the reader's, or made for it. -/
def MayBeTold (made : Caller → Except Bytes Bytes → Prop) (c : Caller) (text : Bytes) : Prop :=
  (∃ out, made c (.ok out) ∧ text = trimmed out) ∨
    ∃ why, errorLine why = some text ∧
      (why ∈ ownWords ∨ (∃ line, read line = .error why) ∨ made c (.error why))

/-- A result was made for a caller in a run. -/
def madeIn (met : List Met) (c : Caller) (result : Except Bytes Bytes) : Prop :=
  ∃ m ∈ met, result ∈ madeFor m c

/-- A call does not run a request again that its caller's job already has : it is no `do` of a
staged request the job is for, and no line that asks for what the job made of a request that is
still staged. -/
def Meets (d : Daemon) : Act → Prop
  | .carryOut c args _ now => ∀ p ∈ heldIn d.parts, p.caller = c → now < p.ends →
      p.have_.length = p.total → stagedName args = some (some p.digest) →
      ∀ job ∈ d.job, job.isFor c p.digest = false
  | .ask c args _ _ _ now => ∀ p ∈ heldIn d.parts, p.caller = c → now < p.ends →
      p.have_.length = p.total → ∀ start line, offsetAt 0 0 args = some (start, line) →
      stagedName line = none → digest line = p.digest →
      ∀ job ∈ d.job, job.isFor c p.digest = true → job.result = none
  | .askPart .. | .finished _ => True

end Runs

/-! ## Answers are their callers' -/

/-- The answers kept, and what the job came to, were made for whom they are kept for. -/
structure Owns (made : Caller → Except Bytes Bytes → Prop) (d : Daemon) : Prop where
  slots : ∀ s ∈ heldIn d.slots, ∃ out, made s.caller (.ok out) ∧ s.answer = trimmed out
  job : ∀ job ∈ d.job, ∀ r ∈ job.result, made job.caller r

structure Collected (s : Staging) (clock : ℕ) (p : Part) : Prop where
  bytes : p.have_ = joinedPieces s.pieces
  order : InOrder 0 s.pieces
  same : ∀ q ∈ s.pieces, q.total = p.total ∧ q.digest = p.digest ∧ q.now < p.ends
  first : ∃ first, s.pieces.head? = some first ∧ first.now + 60000 = p.ends ∧ first.now ≤ clock
  digest : p.have_.length = p.total → Pages.digest p.have_ = p.digest
  runs : p.have_.length < p.total → s.runs = 0

def Act.caller : Act → Option Caller
  | ask c .. | askPart c .. | carryOut c .. => some c
  | finished _ => none

/-- A request that is staged whole was not run, or its time is over, or the job has it. -/
def Accounted (s : Staging) (clock : ℕ) (d : Daemon) (p : Part) : Prop :=
  s.runs = 0 ∨ p.ends ≤ clock ∨
    ∃ job, d.job = some job ∧ job.isFor p.caller p.digest = true ∧ p.ends ≤ job.ends

/-- No request of a caller runs more than once, and what is held is accounted for. -/
structure RunOnce (stagings : Caller → Staging) (clock : ℕ) (d : Daemon) : Prop where
  most : ∀ c, (stagings c).runs ≤ 1
  parts : ∀ p ∈ heldIn d.parts, p.have_.length = p.total →
    Accounted (stagings p.caller) clock d p

section Owned

variable {ρ : Type*} {read : Bytes → Except Bytes ρ} {observes : ρ → Bool}
variable {made : Caller → Except Bytes Bytes → Prop} {d : Daemon} {c : Caller}
variable {start cap escapedCap now : ℕ}

theorem Owns.sub {d' : Daemon} (h : Owns made d)
    (hslots : ∀ s ∈ heldIn d'.slots, s ∈ heldIn d.slots)
    (hjob : ∀ job ∈ d'.job, job ∈ d.job ∨ job.result = none) : Owns made d' where
  slots := fun s hs => h.slots s (hslots s hs)
  job := fun job hjob' r hr => by
    rcases hjob job hjob' with hold | hnone
    · exact h.job job hold r hr
    · rw [hnone] at hr
      cases hr

theorem Owns.kept (h : Owns made d) (c : Caller) (asked : UInt64) (now : ℕ) :
    Owns made (kept d c asked now).2 ∧
      ∀ s, (kept d c asked now).1 = some s →
        s.caller = c ∧ ∃ out, made c (.ok out) ∧ s.answer = trimmed out := by
  obtain ⟨hsub, hfound⟩ := heldIn_seek (fun s => decide (s.ends ≤ now))
    (fun s : Slot => decide (s.asked = asked ∧ s.caller = c)) d.slots
  refine ⟨h.sub (fun s hs => hsub.subset hs) fun job hjob => .inl hjob, fun s hs => ?_⟩
  obtain ⟨hin, -, hwanted⟩ := hfound s hs
  obtain ⟨-, rfl⟩ := of_decide_eq_true hwanted
  exact ⟨rfl, h.slots s hin⟩

theorem Owns.partDone (h : Owns made d) (c : Caller) (staged : Option UInt64) :
    Owns made (partDone d c staged) := by
  cases staged <;> exact h.sub (fun _ hs => hs) fun _ hjob => .inl hjob

theorem mayBeTold_own {why text : Bytes} (hwhy : why ∈ ownWords) (h : errorLine why = some text) :
    MayBeTold read made c text :=
  .inr ⟨why, h, .inl hwhy⟩

theorem finish_owns (h : Owns made d) (asked : UInt64) (handed : Option Bytes)
    {result : Except Bytes Bytes} (hmade : made c result) :
    Owns made (finish d c asked handed result start cap escapedCap now).daemon ∧
      ∀ text, (finish d c asked handed result start cap escapedCap now).text = some text →
        MayBeTold read made c text := by
  cases result with
  | error why =>
    refine ⟨h, fun text htext => ?_⟩
    by_cases hwhy : why = []
    · have hown : asciis "the request was not answered" ∈ ownWords := by simp [ownWords]
      refine mayBeTold_own hown ?_
      simpa [finish, refused, hwhy] using htext
    · exact .inr ⟨why, by simpa [finish, refused, hwhy] using htext, .inr (.inr hmade)⟩
  | ok out =>
    refine ⟨⟨fun s hs => ?_, h.job⟩, fun text htext => ?_⟩
    · rw [List.reduceOption_mem_iff] at hs
      rcases List.mem_or_eq_of_mem_set hs with hold | hnew
      · exact h.slots s (List.reduceOption_mem_iff.2 hold)
      · split_ifs at hnew
        obtain rfl := Option.some.inj hnew
        exact ⟨out, hmade, rfl⟩
    · exact .inl ⟨out, hmade, (Option.some.inj htext).symm⟩

theorem makeAnswer_owns (h : Owns made d) (line : Bytes) (staged : Option UInt64) {m : Made}
    (hmade : made c m.result) :
    Owns made (makeAnswer d c line staged m start cap escapedCap now).daemon ∧
      ∀ text, (makeAnswer d c line staged m start cap escapedCap now).text = some text →
        MayBeTold read made c text := by
  have hdone := h.partDone c staged
  cases m with
  | before result => exact finish_owns hdone _ _ hmade
  | answered result => exact finish_owns hdone _ _ hmade
  | later inPlace =>
    rw [makeAnswer]
    split_ifs
    · refine ⟨h.sub (fun _ hs => hs) fun job hjob => .inr ?_, fun text htext =>
        mayBeTold_own (by simp [ownWords]) htext⟩
      obtain rfl := Option.some.inj hjob
      rfl
    · exact finish_owns hdone _ _ hmade

theorem fromSlot_owns (h : Owns made d) {slot : Slot}
    (hslot : ∃ out, made c (.ok out) ∧ slot.answer = trimmed out) :
    Owns made (fromSlot d slot start cap escapedCap).daemon ∧
      ∀ text, (fromSlot d slot start cap escapedCap).text = some text →
        MayBeTold read made c text := by
  rw [fromSlot]
  refine ⟨?_, fun text htext => ?_⟩
  · dsimp only
    split_ifs
    · refine h.sub (fun s hs => ?_) fun job hjob => .inl hjob
      dsimp only at hs
      rw [heldIn_letGo] at hs
      exact List.mem_of_mem_eraseP hs
    · exact h
  · obtain ⟨out, hmade, hout⟩ := hslot
    exact .inl ⟨out, hmade, (Option.some.inj htext).symm.trans hout⟩

theorem askLine_owns (h : Owns made d) (line : Bytes) (staged : Option UInt64) {m : Made}
    (hmade : made c m.result) :
    Owns made (askLine read observes d c start line staged m cap escapedCap now).daemon ∧
      ∀ text, (askLine read observes d c start line staged m cap escapedCap now).text = some text →
        MayBeTold read made c text := by
  obtain ⟨hkept, hslot⟩ := h.kept c (digest line) now
  have hdone := hkept.partDone c staged
  unfold askLine
  dsimp only
  split
  · rename_i slot hfound
    split_ifs at hfound
    exact fromSlot_owns hkept (hslot slot hfound).2
  · cases hread : read line with
    | error why =>
      exact ⟨hdone, fun text htext => .inr ⟨why, htext, .inr (.inl ⟨line, hread⟩)⟩⟩
    | ok request =>
      dsimp only
      split_ifs
      · exact ⟨hdone, fun text htext => mayBeTold_own (by simp [ownWords]) htext⟩
      · have hdrop : Owns made (dropJob (kept d c (digest line) now).2 c (digest line) now) := by
          rw [dropJob]
          split
          · split_ifs
            · exact hkept.sub (fun _ hs => hs) fun job hjob => by cases hjob
            · exact hkept
          · exact hkept
        split
        · exact makeAnswer_owns hdrop line staged hmade
        · rename_i job hsome
          obtain ⟨hjob, hfor⟩ := Option.filter_eq_some_iff.1 hsome
          split
          · exact ⟨hdrop, fun text htext => mayBeTold_own (by simp [ownWords]) htext⟩
          · rename_i result hresult
            have hcaller : job.caller = c := by
              rw [Job.isFor, Bool.and_eq_true] at hfor
              exact of_decide_eq_true hfor.2
            refine finish_owns (Owns.partDone ?_ c staged) _ _
              (hcaller ▸ hdrop.job job hjob result hresult)
            exact hdrop.sub (fun _ hs => hs) fun job hjob => by cases hjob

/-- The step lemma of owning : a caller is told what was made for it. -/
theorem ask_owns (h : Owns made d) (args : Bytes) {m : Made} (hmade : made c m.result) :
    Owns made (ask read observes d c args m cap escapedCap now).daemon ∧
      ∀ text, (ask read observes d c args m cap escapedCap now).text = some text →
        MayBeTold read made c text := by
  unfold ask
  split
  · exact ⟨h, fun text htext => mayBeTold_own (by simp [ownWords]) htext⟩
  · rename_i start line _
    split
    · exact askLine_owns h line none hmade
    · exact ⟨h, fun text htext => mayBeTold_own (by simp [ownWords]) htext⟩
    · rename_i named _
      have hfound : Owns made (if 0 < start then kept d c named now else (none, d)).2 ∧
          ∀ s, (if 0 < start then kept d c named now else (none, d)).1 = some s →
            ∃ out, made c (.ok out) ∧ s.answer = trimmed out := by
        split_ifs
        · exact ⟨(h.kept c named now).1, fun s hs => ((h.kept c named now).2 s hs).2⟩
        · exact ⟨h, fun s hs => nomatch hs⟩
      generalize (if 0 < start then kept d c named now else (none, d)) = found at hfound ⊢
      obtain ⟨_ | slot, d₁⟩ := found
      · have hpart : Owns made (partOf d₁ c named now).2 :=
          hfound.1.sub (fun _ hs => hs) fun _ hjob => .inl hjob
        dsimp only
        split
        · exact ⟨hpart, fun text htext => mayBeTold_own (by simp [ownWords]) htext⟩
        · exact askLine_owns hpart _ _ hmade
      · exact fromSlot_owns hfound.1 (hfound.2 slot rfl)

theorem Owns.mono {made' : Caller → Except Bytes Bytes → Prop} (h : Owns made d)
    (hle : ∀ c r, made c r → made' c r) : Owns made' d where
  slots := fun s hs => (h.slots s hs).imp fun _ hout => ⟨hle _ _ hout.1, hout.2⟩
  job := fun job hjob r hr => hle _ _ (h.job job hjob r hr)

end Owned

section Runs

variable {ρ : Type*} {read : Bytes → Except Bytes ρ} {observes : ρ → Bool}

theorem carryOut_frame (d : Daemon) (c : Caller) (args : Bytes) (now : ℕ) :
    (carryOut d c args now).slots = d.slots ∧ (carryOut d c args now).job = d.job := by
  unfold carryOut
  split
  · exact ⟨rfl, rfl⟩
  · exact ⟨rfl, rfl⟩
  · dsimp only
    split <;> exact ⟨rfl, rfl⟩

theorem madeIn_append {met : List Met} {m : Met} {c : Caller} {r : Except Bytes Bytes}
    (h : madeIn met c r ∨ r ∈ madeFor m c) : madeIn (met ++ [m]) c r := by
  rcases h with ⟨m', hm', hr⟩ | hr
  · exact ⟨m', List.mem_append_left _ hm', hr⟩
  · exact ⟨m, List.mem_append_right _ (List.mem_singleton.2 rfl), hr⟩

theorem owns_step {met : List Met} {d : Daemon} (h : Owns (madeIn met) d) (a : Act) :
    Owns (madeIn (met ++ [⟨d, a⟩])) (serve read observes d a.event) := by
  have hmono : Owns (madeIn (met ++ [⟨d, a⟩])) d := h.mono fun c r hr => madeIn_append (.inl hr)
  cases a with
  | ask c args made cap escapedCap now =>
    refine (ask_owns hmono args (madeIn_append (.inr ?_))).1
    simp [madeFor]
  | askPart c args now =>
    obtain ⟨hjob, hslots⟩ := askPart_frame d c now args
    refine hmono.sub (fun s hs => ?_) fun job hin => .inl ?_
    · rwa [← hslots]
    · rwa [← hjob]
  | carryOut c args made now =>
    obtain ⟨hslots, hjob⟩ := carryOut_frame d c args now
    refine hmono.sub (fun s hs => ?_) fun job hin => .inl ?_
    · rwa [← hslots]
    · rwa [← hjob]
  | finished result =>
    refine ⟨hmono.slots, fun job hjob r hr => ?_⟩
    obtain ⟨job', hjob', rfl⟩ := Option.map_eq_some_iff.1 hjob
    cases hold : job'.result with
    | some r' =>
      rw [Option.mem_def, hold] at hr
      obtain rfl := Option.some.inj hr
      exact hmono.job job' hjob' r' hold
    | none =>
      rw [Option.mem_def, hold] at hr
      obtain rfl := Option.some.inj hr
      refine madeIn_append (.inr ?_)
      simp only [madeFor, hjob', if_true, List.mem_singleton]

theorem run_append (acts : List Act) (a : Act) :
    runOf read observes (acts ++ [a]) = (runOf read observes acts).step read observes a := by
  rw [runOf, List.foldl_append]
  rfl

/-- The run lemma of owning. -/
theorem run_owns (acts : List Act) :
    Owns (madeIn (runOf read observes acts).met) (runOf read observes acts).daemon := by
  induction acts using List.reverseRecOn with
  | nil =>
    refine ⟨fun s hs => ?_, fun job hjob => nomatch hjob⟩
    cases hs
  | append_singleton acts a ih =>
    rw [run_append]
    exact owns_step ih a

/-! ## What a call runs from staging -/

/-- A staged request a call of `c` at a time finds whole under a digest. -/
structure Found (d : Daemon) (c : Caller) (named : UInt64) (now : ℕ) (p : Part) : Prop where
  held : p ∈ heldIn d.parts
  caller : p.caller = c
  digest : p.digest = named
  ends : now < p.ends
  whole : p.have_.length = p.total

theorem found_of_partOf {d : Daemon} {c : Caller} {named : UInt64} {now : ℕ} {p : Part}
    (h : (partOf d c named now).1 = some p) (hwhole : p.have_.length = p.total) :
    Found d c named now p := by
  obtain ⟨hin, hends, hdigest, hcaller⟩ := (heldIn_partOf d c named now).2 p h
  exact ⟨hin, hcaller, hdigest, hends, hwhole⟩

theorem handsOver_eq {line bytes : Bytes} {made : Made}
    (h : handsOver read line made = some bytes) : bytes = line := by
  unfold handsOver at h
  split at h
  · cases h
  · split at h
    · cases h
    · exact (Option.some.inj h).symm
    · exact (Option.some.inj h).symm

theorem carryOutHanded_found {d : Daemon} {c : Caller} {args bytes : Bytes} {made : Made}
    {now : ℕ} {named : UInt64} (hname : stagedName args = some (some named))
    (h : carryOutHanded read d c args made now = some bytes) :
    ∃ p, (partOf d c named now).1 = some p ∧ Found d c named now p ∧ bytes = p.have_ := by
  rw [carryOutHanded, hname] at h
  obtain ⟨p, hp, hover⟩ := Option.bind_eq_some_iff.1 h
  obtain ⟨hp, hwhole⟩ := Option.filter_eq_some_iff.1 hp
  exact ⟨p, hp, found_of_partOf hp (of_decide_eq_true hwhole), handsOver_eq hover⟩

theorem LineOutcome.handed_eq {d d' : Daemon} {c : Caller} {line bytes : Bytes}
    {staged : Option UInt64} {now : ℕ} {handed : Option Bytes}
    (h : LineOutcome d c line staged now handed d') (hbytes : handed = some bytes) :
    bytes = line := by
  cases h with
  | told => cases hbytes
  | collected => cases hbytes
  | ran hhanded => exact hhanded bytes hbytes
  | begun => exact (Option.some.inj hbytes).symm

/-- What runs of a staged request was found among the parts. -/
theorem ranStaged_found {d : Daemon} {a : Act} {c : Caller} {named : UInt64} {bytes : Bytes}
    (h : ranStaged read observes d a = some (c, named, bytes)) :
    ∃ now p, a.time = some now ∧ Found d c named now p ∧ bytes = p.have_ := by
  cases a with
  | ask c' args made cap escapedCap now =>
    simp only [ranStaged, Option.bind_eq_bind, Option.pure_def, Option.bind_eq_some_iff] at h
    obtain ⟨⟨start, line⟩, hargs, named', hname, handed, hhanded, heq⟩ := h
    obtain ⟨rfl, rfl, rfl⟩ : c' = c ∧ named' = named ∧ handed = bytes := by simpa using heq
    have hstaged : stagedName line = some (some named') := Option.join_eq_some_iff.1 hname
    rcases ask_outcome read observes d c' made cap escapedCap now args with ⟨hnone, -⟩ |
      ⟨start', line', hargs', hplain, -⟩ |
      ⟨start', line', named, part, hargs', hname', hpart, hwhole, hout⟩
    · rw [hnone] at hhanded
      cases hhanded
    · rw [hargs'] at hargs
      obtain ⟨rfl, rfl⟩ : start' = start ∧ line' = line := by simpa using hargs
      rw [hstaged] at hplain
      cases hplain
    · rw [hargs'] at hargs
      obtain ⟨rfl, rfl⟩ : start' = start ∧ line' = line := by simpa using hargs
      obtain rfl : named = named' := by
        rw [hname'] at hstaged
        simpa using hstaged
      exact ⟨now, part, rfl, found_of_partOf hpart hwhole, hout.handed_eq hhanded⟩
  | carryOut c' args made now =>
    simp only [ranStaged, Option.bind_eq_bind, Option.pure_def, Option.bind_eq_some_iff] at h
    obtain ⟨named', hname, handed, hhanded, heq⟩ := h
    obtain ⟨rfl, rfl, rfl⟩ : c' = c ∧ named' = named ∧ handed = bytes := by simpa using heq
    obtain ⟨p, -, hfound, hbytes⟩ := carryOutHanded_found (Option.join_eq_some_iff.1 hname) hhanded
    exact ⟨now, p, rfl, hfound, hbytes⟩
  | askPart => cases h
  | finished => cases h

/-! ## What is staged is what was sent -/

theorem inOrder_append {pieces : List Piece} {p : Piece} : ∀ {start : ℕ}, InOrder start pieces →
    p.offset = start + (joinedPieces pieces).length → InOrder start (pieces ++ [p]) := by
  induction pieces with
  | nil => exact fun _ h => ⟨h, trivial⟩
  | cons q pieces ih =>
    rintro start ⟨hq, hrest⟩ h
    refine ⟨hq, ih hrest ?_⟩
    rw [h, joinedPieces, List.flatMap_cons, List.length_append, joinedPieces]
    omega

theorem joinedPieces_append (pieces : List Piece) (p : Piece) :
    joinedPieces (pieces ++ [p]) = joinedPieces pieces ++ p.bytes := by
  rw [joinedPieces, List.flatMap_append, joinedPieces]
  simp

/-- A part is no longer than it should be, and what was sent of it was collected. -/
structure PartSound (s : Staging) (clock : ℕ) (p : Part) : Prop where
  total : 0 < p.total
  room : p.have_.length ≤ p.total
  collected : p.have_ ≠ [] → Collected s clock p

theorem PartSound.mono {s s' : Staging} {clock clock' : ℕ} {p : Part} (h : PartSound s clock p)
    (hle : clock ≤ clock') (hpieces : s'.pieces = s.pieces)
    (hruns : p.have_.length < p.total → s.runs = 0 → s'.runs = 0) : PartSound s' clock' p where
  total := h.total
  room := h.room
  collected := fun hsome => by
    obtain ⟨hbytes, horder, hsame, ⟨first, hfirst, hends, hclock⟩, hdigest, hrun⟩ :=
      h.collected hsome
    exact ⟨by rw [hpieces, hbytes], by rwa [hpieces], by rwa [hpieces],
      ⟨first, by rwa [hpieces], hends, hclock.trans hle⟩, hdigest, fun hlt => hruns hlt (hrun hlt)⟩

/-- What holds of the staging places in a run, at a time. -/
structure PlacesSound (stagings : Caller → Staging) (clock : ℕ) (d : Daemon) : Prop where
  one : OneEach (heldIn d.parts)
  parts : ∀ p ∈ heldIn d.parts, PartSound (stagings p.caller) clock p

variable (read observes) in
theorem stagingOf_append (met : List Met) (m : Met) (c : Caller) :
    stagingOf read observes (met ++ [m]) c =
      Staging.after read observes c (stagingOf read observes met c) m := by
  rw [stagingOf, List.foldl_append, List.foldl_cons, List.foldl_nil, stagingOf]

/-- A part that is found was collected from its caller. -/
theorem PlacesSound.collected {d : Daemon} {stagings : Caller → Staging} {clock now : ℕ}
    {c : Caller} {named : UInt64} {p : Part} (hsound : PlacesSound stagings clock d)
    (hfound : Found d c named now p) : Collected (stagings c) clock p := by
  obtain ⟨htotal, -, hcollected⟩ := hsound.parts p hfound.held
  rw [hfound.caller] at hcollected
  refine hcollected fun hnil => ?_
  rw [← hfound.whole, hnil] at htotal
  cases htotal

theorem accepted_caller {d : Daemon} {a : Act} {c : Caller} {q : Piece}
    (h : accepted d a = some (c, q)) : a.caller = some c := by
  unfold accepted at h
  split at h
  · split at h
    · obtain ⟨p, -, hp⟩ := Option.map_eq_some_iff.1 h
      cases hp
      rfl
    · cases h
  · cases h

theorem ranStaged_caller {d : Daemon} {a : Act} {ran : Caller × UInt64 × Bytes}
    (h : ranStaged read observes d a = some ran) : a.caller = some ran.1 := by
  cases a with
  | ask c args made cap escapedCap now =>
    simp only [ranStaged, Option.bind_eq_bind, Option.pure_def, Option.bind_eq_some_iff] at h
    obtain ⟨_, -, _, -, _, -, heq⟩ := h
    exact congrArg (some ∘ Prod.fst) (Option.some.inj heq)
  | carryOut c args made now =>
    simp only [ranStaged, Option.bind_eq_bind, Option.pure_def, Option.bind_eq_some_iff] at h
    obtain ⟨_, -, _, -, heq⟩ := h
    exact congrArg (some ∘ Prod.fst) (Option.some.inj heq)
  | askPart => cases h
  | finished => cases h

theorem after_other {c : Caller} {s : Staging} {m : Met} (h : m.act.caller ≠ some c) :
    Staging.after read observes c s m = s := by
  have haccepted : (accepted m.daemon m.act).filter (fun p => p.1 = c) = none := by
    rw [Option.filter_eq_none_iff]
    rintro ⟨c', q⟩ hq hc
    exact h ((accepted_caller hq).trans (congrArg some (of_decide_eq_true hc)))
  have hran : (ranStaged read observes m.daemon m.act).filter (fun ran => ran.1 = c) = none := by
    rw [Option.filter_eq_none_iff]
    intro ran hran hc
    exact h ((ranStaged_caller hran).trans (congrArg some (of_decide_eq_true hc)))
  rw [Staging.after, haccepted, hran]

theorem after_run {c : Caller} {s : Staging} {m : Met} (h : accepted m.daemon m.act = none) :
    Staging.after read observes c s m =
      match (ranStaged read observes m.daemon m.act).filter fun ran => ran.1 = c with
      | some _ => { s with runs := s.runs + 1 }
      | none => s := by
  rw [Staging.after, h]
  rfl

theorem after_add {c : Caller} {s : Staging} {m : Met} {q : Piece}
    (h : accepted m.daemon m.act = some (c, q)) :
    Staging.after read observes c s m = s.add q := by
  rw [Staging.after, h, Option.filter_some, if_pos (decide_eq_true rfl)]

theorem after_piece {d : Daemon} {c : Caller} {args : Bytes} {now : ℕ} {s : Staging} {q : Piece}
    (h : (accepted d (.askPart c args now)).map Prod.snd = some q) :
    Staging.after read observes c s ⟨d, .askPart c args now⟩ = s.add q := by
  obtain ⟨⟨c', q'⟩, haccepted, rfl⟩ := Option.map_eq_some_iff.1 h
  obtain rfl : c = c' := Option.some.inj (accepted_caller haccepted)
  exact after_add haccepted

variable (read observes) in
theorem after_frame {d : Daemon} {a : Act} {clock : ℕ} {stagings : Caller → Staging}
    (hsound : PlacesSound stagings clock d) (h : accepted d a = none) {p : Part}
    (hp : p ∈ heldIn d.parts) :
    (Staging.after read observes p.caller (stagings p.caller) ⟨d, a⟩).pieces =
        (stagings p.caller).pieces ∧
      (p.have_.length < p.total → (stagings p.caller).runs = 0 →
        (Staging.after read observes p.caller (stagings p.caller) ⟨d, a⟩).runs = 0) := by
  rw [after_run h]
  cases hran : (ranStaged read observes d a).filter fun ran => ran.1 = p.caller with
  | none => exact ⟨rfl, fun _ hruns => hruns⟩
  | some ran =>
    refine ⟨rfl, fun hlt => ?_⟩
    obtain ⟨hran, hcaller⟩ := Option.filter_eq_some_iff.1 hran
    obtain ⟨c, named, bytes⟩ := ran
    obtain ⟨_, p', -, hfound, -⟩ := ranStaged_found hran
    obtain rfl : p' = p := List.inj_on_of_nodup_map hsound.one hfound.held hp
      (hfound.caller.trans (of_decide_eq_true hcaller))
    exact absurd hfound.whole hlt.ne

theorem placesSound_sub {d d' : Daemon} {a : Act} {clock clock' : ℕ} {stagings : Caller → Staging}
    (hsound : PlacesSound stagings clock d) (hle : clock ≤ clock') (h : accepted d a = none)
    (hsub : (heldIn d'.parts).Sublist (heldIn d.parts)) :
    PlacesSound (fun c => Staging.after read observes c (stagings c) ⟨d, a⟩) clock' d' where
  one := hsound.one.sublist hsub
  parts := fun p hp => by
    obtain ⟨hpieces, hruns⟩ := after_frame read observes hsound h
      (hsub.subset hp)
    exact (hsound.parts p (hsub.subset hp)).mono hle hpieces hruns

theorem heldIn_partDone (d : Daemon) (c : Caller) (staged : Option UInt64) :
    (heldIn (partDone d c staged).parts).Sublist (heldIn d.parts) := by
  cases staged with
  | none => exact List.Sublist.refl _
  | some named =>
    simp only [partDone]
    rw [heldIn_letGo]
    exact List.eraseP_sublist

theorem LineOutcome.sublist {d d' : Daemon} {c : Caller} {line : Bytes} {staged : Option UInt64}
    {now : ℕ} {handed : Option Bytes} (h : LineOutcome d c line staged now handed d') :
    (heldIn d'.parts).Sublist (heldIn d.parts) := by
  have hdone := heldIn_partDone d c staged
  cases h with
  | told hparts =>
    rcases hparts with h | h
    · rw [h]
    · rw [h]
      exact hdone
  | collected hparts =>
    rw [hparts]
    exact hdone
  | ran _ hparts =>
    rw [hparts]
    exact hdone
  | begun hparts => rw [hparts]

variable (read observes) in
theorem ask_sublist (d : Daemon) (c : Caller) (args : Bytes) (made : Made)
    (cap escapedCap now : ℕ) :
    (heldIn (ask read observes d c args made cap escapedCap now).daemon.parts).Sublist
      (heldIn d.parts) := by
  rcases ask_outcome read observes d c made cap escapedCap now args with ⟨-, -, hparts |
    ⟨named, h⟩⟩ |
    ⟨start, line, -, -, hout⟩ | ⟨start, line, named, part, -, -, -, -, hout⟩
  · rw [hparts]
  · rw [h]
    exact (heldIn_partOf d c named now).1
  · exact hout.sublist
  · exact hout.sublist.trans (heldIn_partOf d c named now).1

theorem carryOut_sublist (d : Daemon) (c : Caller) (args : Bytes) (now : ℕ) :
    (heldIn (carryOut d c args now).parts).Sublist (heldIn d.parts) := by
  unfold carryOut
  split
  · exact List.Sublist.refl _
  · exact List.Sublist.refl _
  · rename_i named _
    dsimp only
    split
    · exact (heldIn_partOf d c named now).1
    · exact (heldIn_partDone _ c (some named)).trans (heldIn_partOf d c named now).1

theorem placesSound_piece {d : Daemon} {c : Caller} {args : Bytes} {clock now : ℕ}
    {stagings : Caller → Staging} (hsound : PlacesSound stagings clock d) (hle : clock ≤ now) :
    PlacesSound
      (fun c' => Staging.after read observes c' (stagings c') ⟨d, .askPart c args now⟩) now
      (askPart d c args now).2 := by
  have hout := askPart_outcome c now hsound.one args
  have hstays : ∀ {c'}, c' ≠ c →
      Staging.after read observes c' (stagings c') ⟨d, .askPart c args now⟩ = stagings c' :=
    fun hne => after_other fun h => hne (Option.some.inj h).symm
  have hkept : ∀ p ∈ heldIn d.parts, p.caller ≠ c → PartSound
      (Staging.after read observes p.caller (stagings p.caller) ⟨d, .askPart c args now⟩) now p :=
    fun p hp hne => (hsound.parts p hp).mono hle (by rw [hstays hne]) fun _ hruns => by
      rwa [hstays hne]
  generalize hfound : (accepted d (.askPart c args now)).map Prod.snd = found at hout
  generalize hparts : heldIn (askPart d c args now).2.parts = parts at hout
  cases hout with
  | refused hone hmem =>
    refine ⟨hparts ▸ hone, fun p hp => ?_⟩
    rcases hmem p (hparts ▸ hp) with hold | ⟨q, htotal, -, rfl⟩
    · obtain ⟨hpieces, hruns⟩ := after_frame read observes hsound
        (Option.map_eq_none_iff.1 hfound) hold
      exact (hsound.parts p hold).mono hle hpieces hruns
    · exact ⟨htotal, Nat.zero_le _, fun hne => absurd rfl hne⟩
  | @first _ q _ hoffset htime hfits hone hmem =>
    refine ⟨hparts ▸ hone, fun p hp => ?_⟩
    rcases hmem p (hparts ▸ hp) with ⟨hold, hne⟩ | rfl
    · exact hkept p hold hne
    · have hroom : q.bytes.length ≤ q.total := by simpa [opened] using hfits.room
      have hpos := List.length_pos_iff.2 hfits.some_
      refine ⟨hpos.trans_le hroom, hroom, fun _ => ?_⟩
      dsimp only [Part.with_, opened]
      rw [after_piece hfound, Staging.add, if_pos hoffset]
      refine ⟨(List.append_nil _).symm, ⟨hoffset, trivial⟩, fun q' hq' => ?_,
        ⟨q, rfl, rfl, htime.le⟩,
        fun hfull => hfits.digest ((Nat.zero_add _).trans hfull), fun _ => rfl⟩
      obtain rfl := List.mem_singleton.1 hq'
      exact ⟨rfl, rfl, Nat.lt_add_of_pos_right (by decide)⟩
  | @next _ q p _ hoffset htime hp hcaller hdigest hends hfits hone hmem =>
    refine ⟨hparts ▸ hone, fun p' hp' => ?_⟩
    rcases hmem p' (hparts ▸ hp') with ⟨hold, hne⟩ | rfl
    · exact hkept p' hold hne
    · obtain ⟨htotal, -, hcollected⟩ := hsound.parts p hp
      have hsome : p.have_ ≠ [] := fun hnil => hoffset (by rw [hfits.next, hnil, List.length_nil])
      obtain ⟨hbytes, horder, hsame, ⟨first, hfirst, hminute, hclock⟩, -, hrun⟩ := hcollected hsome
      have hpos := List.length_pos_iff.2 hfits.some_
      have hlength : (p.with_ q).have_.length = p.have_.length + q.bytes.length :=
        List.length_append
      refine ⟨htotal, hlength ▸ hfits.room, fun _ => ?_⟩
      have hc : (p.with_ q).caller = c := hcaller
      rw [hc, after_piece hfound, Staging.add, if_neg hoffset, ← hcaller]
      refine ⟨?_, ?_, fun q' hq' => ?_, ⟨first, ?_, hminute, hclock.trans hle⟩, fun hfull => ?_,
        fun _ => hrun (by have := hfits.room; omega)⟩
      · rw [joinedPieces_append, ← hbytes, Part.with_]
      · refine inOrder_append horder ?_
        rw [Nat.zero_add, ← hbytes, hfits.next]
      · rcases List.mem_append.1 hq' with hq' | hq'
        · exact hsame q' hq'
        · obtain rfl := List.mem_singleton.1 hq'
          exact ⟨hfits.total.symm, hdigest.symm, htime ▸ hends⟩
      · rw [List.head?_append, hfirst, Option.some_or]
      · exact hfits.digest (hlength.symm.trans hfull)

theorem placesSound_step {d : Daemon} {a : Act} {clock : ℕ} {stagings : Caller → Staging}
    (hsound : PlacesSound stagings clock d) (hle : ∀ now ∈ a.time, clock ≤ now) :
    PlacesSound (fun c => Staging.after read observes c (stagings c) ⟨d, a⟩) (a.time.getD clock)
      (serve read observes d a.event) := by
  cases a with
  | ask c args made cap escapedCap now =>
    exact placesSound_sub hsound (hle now rfl) rfl
      (ask_sublist read observes d c args made cap escapedCap now)
  | askPart c args now => exact placesSound_piece hsound (hle now rfl)
  | carryOut c args made now =>
    exact placesSound_sub hsound (hle now rfl) rfl (carryOut_sublist d c args now)
  | finished result => exact placesSound_sub hsound le_rfl rfl (List.Sublist.refl _)

/-! ## A staged request runs once -/

def RunsFor (read : Bytes → Except Bytes ρ) (observes : ρ → Bool) (d : Daemon) (a : Act)
    (c : Caller) : Prop :=
  ∃ named bytes, ranStaged read observes d a = some (c, named, bytes)

theorem runOnce_sub {d d' : Daemon} {a : Act} {clock clock' : ℕ} {stagings : Caller → Staging}
    (h : RunOnce stagings clock d) (haccepted : accepted d a = none)
    (hsub : (heldIn d'.parts).Sublist (heldIn d.parts))
    (hzero : ∀ c, RunsFor read observes d a c → (stagings c).runs = 0)
    (hstays : ∀ p ∈ heldIn d'.parts, p.have_.length = p.total →
      Accounted (stagings p.caller) clock d p → Accounted (stagings p.caller) clock' d' p)
    (hran : ∀ p ∈ heldIn d'.parts, RunsFor read observes d a p.caller →
      p.ends ≤ clock' ∨
        ∃ job, d'.job = some job ∧ job.isFor p.caller p.digest = true ∧ p.ends ≤ job.ends) :
    RunOnce (fun c => Staging.after read observes c (stagings c) ⟨d, a⟩) clock' d' := by
  have hafter : ∀ c, RunsFor read observes d a c ∧
        Staging.after read observes c (stagings c) ⟨d, a⟩ =
          { stagings c with runs := (stagings c).runs + 1 } ∨
      ¬RunsFor read observes d a c ∧
        Staging.after read observes c (stagings c) ⟨d, a⟩ = stagings c := by
    intro c
    rw [after_run haccepted]
    cases hran : (ranStaged read observes d a).filter fun ran => ran.1 = c with
    | some ran =>
      obtain ⟨hsome, hc⟩ := Option.filter_eq_some_iff.1 hran
      obtain ⟨c', named, bytes⟩ := ran
      obtain rfl : c' = c := of_decide_eq_true hc
      exact .inl ⟨⟨named, bytes, hsome⟩, rfl⟩
    | none =>
      refine .inr ⟨?_, rfl⟩
      rintro ⟨named, bytes, hsome⟩
      rw [hsome, Option.filter_some, if_pos (decide_eq_true rfl)] at hran
      cases hran
  refine ⟨fun c => ?_, fun p hp hwhole => ?_⟩
  · rcases hafter c with ⟨hruns, hafter⟩ | ⟨-, hafter⟩
    · rw [hafter]
      exact (congrArg (· + 1) (hzero c hruns)).le
    · rw [hafter]
      exact h.most c
  · rcases hafter p.caller with ⟨hruns, -⟩ | ⟨hruns, hafter⟩
    · exact .inr (hran p hp hruns)
    · rw [hafter]
      exact hstays p hp hwhole (h.parts p (hsub.subset hp) hwhole)

theorem Accounted.stays {d d' : Daemon} {c : Caller} {asked : UInt64} {clock now : ℕ}
    {s : Staging} {p : Part} (h : Accounted s clock d p) (hle : clock ≤ now)
    (hjob : JobStays d d' c asked now) : Accounted s now d' p := by
  rcases h with hruns | hends | ⟨job, hsome, hfor, hends⟩
  · exact .inl hruns
  · exact .inr (.inl (hends.trans hle))
  · rcases hjob with hsame | ⟨-, job', hsome', -, hover⟩
    · exact .inr (.inr ⟨job, hsame.trans hsome, hfor, hends⟩)
    · obtain rfl : job = job' := Option.some.inj (hsome.symm.trans hsome')
      exact .inr (.inl (hends.trans hover.le))

theorem Accounted.gone {d d' : Daemon} {c : Caller} {asked : UInt64} {clock now : ℕ}
    {s : Staging} {p : Part} (h : Accounted s clock d p) (hle : clock ≤ now)
    (hgone : ∀ job ∈ d.job, JobOver job c asked now) : Accounted s now d' p := by
  rcases h with hruns | hends | ⟨job, hsome, -, hends⟩
  · exact .inl hruns
  · exact .inr (.inl (hends.trans hle))
  · exact .inr (.inl (hends.trans (hgone job hsome).2.le))

theorem RunOnce.unrun {d : Daemon} {stagings : Caller → Staging} {clock now : ℕ} {c : Caller}
    {named : UInt64} {p : Part} (h : RunOnce stagings clock d) (hle : clock ≤ now)
    (hfound : Found d c named now p) (hfor : ∀ job ∈ d.job, job.isFor c named = false) :
    (stagings c).runs = 0 := by
  rcases h.parts p hfound.held hfound.whole with hruns | hends | ⟨job, hsome, his, -⟩
  · rwa [hfound.caller] at hruns
  · exact absurd (hends.trans hle) (not_le.2 hfound.ends)
  · rw [hfound.caller, hfound.digest, hfor job hsome] at his
    cases his

theorem isFor_iff {job : Job} {c : Caller} {asked : UInt64} :
    job.isFor c asked = true ↔ job.asked = asked ∧ job.caller = c := by
  rw [Job.isFor, Bool.and_eq_true, decide_eq_true_iff, decide_eq_true_iff]

theorem runsFor_caller {d : Daemon} {a : Act} {c : Caller} (h : RunsFor read observes d a c) :
    a.caller = some c := by
  obtain ⟨named, bytes, hran⟩ := h
  exact ranStaged_caller hran

theorem none_left {d : Daemon} {c : Caller} {named : UInt64} {p : Part}
    (hone : OneEach (heldIn d.parts))
    (hdigest : ∀ p ∈ heldIn d.parts, p.caller = c → p.digest = named)
    (hp : p ∈ heldIn (partDone d c (some named)).parts) : p.caller ≠ c := by
  simp only [partDone] at hp
  rw [heldIn_letGo] at hp
  intro hc
  have hno := not_wanted_of_mem_eraseP hone (fun a ha => (of_decide_eq_true ha).2) hp
  rw [decide_eq_false_iff_not] at hno
  exact hno ⟨hdigest p (List.mem_of_mem_eraseP hp) hc, hc⟩

theorem not_runsFor_of_handed {d : Daemon} {c c' : Caller} {args : Bytes} {made : Made}
    {cap escapedCap now : ℕ}
    (h : (ask read observes d c args made cap escapedCap now).handed = none) :
    ¬RunsFor read observes d (.ask c args made cap escapedCap now) c' := by
  rintro ⟨named, bytes, hran⟩
  simp only [ranStaged, h, Option.bind_eq_bind, Option.bind_none, Option.bind_fun_none] at hran
  cases hran

theorem not_runsFor_of_plain {d : Daemon} {c c' : Caller} {args line : Bytes} {made : Made}
    {start cap escapedCap now : ℕ} (hargs : offsetAt 0 0 args = some (start, line))
    (hname : stagedName line = none) :
    ¬RunsFor read observes d (.ask c args made cap escapedCap now) c' := by
  rintro ⟨named, bytes, hran⟩
  simp only [ranStaged, hargs, hname, Option.bind_eq_bind, Option.bind_some, Option.join_none,
    Option.bind_none] at hran
  cases hran

theorem LineOutcome.not_for {d d' : Daemon} {c : Caller} {line bytes : Bytes}
    {staged : Option UInt64} {now : ℕ} {handed : Option Bytes}
    (h : LineOutcome d c line staged now handed d') (hbytes : handed = some bytes) :
    ∀ job ∈ d.job, job.isFor c (digest line) = false := by
  cases h with
  | told => cases hbytes
  | collected => cases hbytes
  | ran _ _ _ hfor => exact hfor
  | begun _ _ hgone => exact fun job hjob => (hgone job hjob).1

theorem LineOutcome.running {d d' : Daemon} {c : Caller} {line bytes : Bytes}
    {staged : Option UInt64} {now : ℕ} {handed : Option Bytes}
    (h : LineOutcome d c line staged now handed d') (hbytes : handed = some bytes) :
    d'.parts = (partDone d c staged).parts ∨
      d'.job = some ⟨c, digest line, now + 60000, none⟩ := by
  cases h with
  | told => cases hbytes
  | collected => cases hbytes
  | ran _ hparts => exact .inl hparts
  | begun _ hjob => exact .inr hjob

theorem LineOutcome.accounted {d d' : Daemon} {c : Caller} {line : Bytes} {staged : Option UInt64}
    {clock now : ℕ} {handed : Option Bytes} {s : Staging} {p : Part}
    (h : LineOutcome d c line staged now handed d') (hle : clock ≤ now)
    (hacc : Accounted s clock d p)
    (hopen : d'.parts = (partDone d c staged).parts → p.caller = c → p.digest = digest line →
      now < p.ends → ∀ job ∈ d.job, job.isFor c p.digest = true → job.result = none) :
    Accounted s now d' p := by
  cases h with
  | told _ hjob => exact hacc.stays hle hjob
  | ran _ _ hjob => exact hacc.stays hle hjob
  | begun _ _ hgone => exact hacc.gone hle hgone
  | @collected _ job hparts hgone hjob hfor hdone =>
    rcases hacc with hruns | hends | ⟨job', hsome, hfor', hends⟩
    · exact .inl hruns
    · exact .inr (.inl (hends.trans hle))
    · obtain rfl : job = job' := Option.some.inj (hjob.symm.trans hsome)
      obtain ⟨hasked, hcaller⟩ := isFor_iff.1 hfor
      obtain ⟨hasked', hcaller'⟩ := isFor_iff.1 hfor'
      refine .inr (.inl (not_lt.1 fun hlt => ?_))
      have hnone := hopen hparts (hcaller'.symm.trans hcaller) (hasked'.symm.trans hasked) hlt job
        hjob (isFor_iff.2 ⟨hasked', hcaller⟩)
      rw [hnone] at hdone
      cases hdone

theorem runOnce_ask {d : Daemon} {c : Caller} {args : Bytes} {made : Made}
    {cap escapedCap clock now : ℕ} {stagings : Caller → Staging}
    (hsound : PlacesSound stagings clock d) (h : RunOnce stagings clock d) (hle : clock ≤ now)
    (hmeets : Meets d (.ask c args made cap escapedCap now)) :
    RunOnce (fun c' => Staging.after read observes c' (stagings c')
        ⟨d, .ask c args made cap escapedCap now⟩) now
      (ask read observes d c args made cap escapedCap now).daemon := by
  have hsub := ask_sublist read observes d c args made cap escapedCap now
  rcases ask_outcome read observes d c made cap escapedCap now args with ⟨hnone, hjob, -⟩ |
    ⟨start, line, hargs, hname, hout⟩ |
    ⟨start, line, named, part, hargs, hname, hpart, hwhole, hout⟩
  · have hidle : ∀ c', ¬RunsFor read observes d (.ask c args made cap escapedCap now) c' :=
      fun _ => not_runsFor_of_handed hnone
    exact runOnce_sub h rfl hsub (fun c' hc' => absurd hc' (hidle c'))
      (fun p _ _ hacc => @Accounted.stays _ _ c 0 _ _ _ _ hacc hle (.inl hjob))
      fun p _ hruns => absurd hruns (hidle p.caller)
  · -- The line itself : nothing is run from staging.
    have hidle : ∀ c', ¬RunsFor read observes d (.ask c args made cap escapedCap now) c' :=
      fun _ => not_runsFor_of_plain hargs hname
    refine runOnce_sub h rfl hsub (fun c' hc' => absurd hc' (hidle c')) (fun p hp hfull hacc => ?_)
      fun p _ hruns => absurd hruns (hidle p.caller)
    exact hout.accounted hle hacc fun _ hcaller hdigest hlt =>
      hmeets p (hsub.subset hp) hcaller hlt hfull start line hargs hname hdigest.symm
  · -- A staged request.
    have hfound := found_of_partOf hpart hwhole
    have hsub₁ := (heldIn_partOf d c named now).1
    have hcollected := hsound.collected hfound
    have hnamed : digest part.have_ = named := (hcollected.digest hwhole).trans hfound.digest
    have hsole : ∀ p ∈ heldIn d.parts, p.caller = c → p = part := fun p hp hc =>
      List.inj_on_of_nodup_map hsound.one hp hfound.held (hc.trans hfound.caller.symm)
    have hleft : ∀ p ∈ heldIn (ask read observes d c args made cap escapedCap now).daemon.parts,
        (ask read observes d c args made cap escapedCap now).daemon.parts =
          (partDone (partOf d c named now).2 c (some named)).parts → p.caller ≠ c := by
      intro p hp hparts
      rw [hparts] at hp
      exact none_left (hsound.one.sublist hsub₁)
        (fun q hq hc => (hsole q (hsub₁.subset hq) hc) ▸ hfound.digest) hp
    have hruns : ∀ c', RunsFor read observes d (.ask c args made cap escapedCap now) c' →
        c' = c ∧ ∃ bytes,
          (ask read observes d c args made cap escapedCap now).handed = some bytes := by
      intro c' hc'
      refine ⟨(Option.some.inj (runsFor_caller hc')).symm, Option.ne_none_iff_exists'.1 fun hno =>
        ?_⟩
      exact not_runsFor_of_handed hno hc'
    refine runOnce_sub h rfl hsub (fun c' hc' => ?_) (fun p hp _ hacc => ?_) fun p hp hc' => ?_
    · obtain ⟨rfl, bytes, hbytes⟩ := hruns c' hc'
      exact h.unrun hle hfound (hnamed ▸ hout.not_for hbytes)
    · exact hout.accounted hle hacc fun hparts hcaller => absurd hcaller (hleft p hp hparts)
    · obtain ⟨hcaller, bytes, hbytes⟩ := hruns p.caller hc'
      rcases hout.running hbytes with hparts | hjob
      · exact absurd hcaller (hleft p hp hparts)
      · obtain rfl := hsole p (hsub.subset hp) hcaller
        refine .inr ⟨_, hjob, isFor_iff.2 ⟨hnamed.trans hfound.digest.symm, hcaller.symm⟩, ?_⟩
        obtain ⟨first, -, hminute, hclock⟩ := hcollected.first
        rw [← hminute]
        exact Nat.add_le_add_right (hclock.trans hle) _

theorem runOnce_carryOut {d : Daemon} {c : Caller} {args : Bytes} {made : Made} {clock now : ℕ}
    {stagings : Caller → Staging} (hsound : PlacesSound stagings clock d)
    (h : RunOnce stagings clock d) (hle : clock ≤ now)
    (hmeets : Meets d (.carryOut c args made now)) :
    RunOnce (fun c' => Staging.after read observes c' (stagings c')
      ⟨d, .carryOut c args made now⟩) now (carryOut d c args now) := by
  have hsub := carryOut_sublist d c args now
  have hjob := (carryOut_frame d c args now).2
  have hruns : ∀ c', RunsFor read observes d (.carryOut c args made now) c' → c' = c ∧
      ∃ named p, stagedName args = some (some named) ∧ (partOf d c named now).1 = some p ∧
        Found d c named now p := by
    rintro c' ⟨named, bytes, hran⟩
    obtain rfl : c = c' := Option.some.inj (ranStaged_caller hran)
    simp only [ranStaged, Option.bind_eq_bind, Option.pure_def, Option.bind_eq_some_iff] at hran
    obtain ⟨named', hname, handed, hhanded, -⟩ := hran
    have hstaged := Option.join_eq_some_iff.1 hname
    obtain ⟨p, hp, hfound, -⟩ := carryOutHanded_found hstaged hhanded
    exact ⟨rfl, named', p, hstaged, hp, hfound⟩
  refine runOnce_sub h rfl hsub (fun c' hc' => ?_) (fun p hp _ hacc => ?_) fun p hp hc' => ?_
  · obtain ⟨rfl, named, p, hname, -, hfound⟩ := hruns c' hc'
    have hnot := hmeets p hfound.held hfound.caller hfound.ends hfound.whole
      (hfound.digest ▸ hname)
    exact h.unrun hle hfound (hfound.digest ▸ hnot)
  · exact @Accounted.stays _ _ c 0 _ _ _ _ hacc hle (.inl hjob)
  · -- What was run was let go of.
    obtain ⟨hcaller, named, part, hname, hpart, hfound⟩ := hruns p.caller hc'
    have hsub₁ := (heldIn_partOf d c named now).1
    have hdone : carryOut d c args now = partDone (partOf d c named now).2 c (some named) := by
      rw [carryOut, hname]
      dsimp only
      rw [hpart, Option.filter_some, if_pos (decide_eq_true hfound.whole)]
    rw [hdone] at hp
    refine absurd hcaller (none_left (hsound.one.sublist hsub₁) (fun q hq hc => ?_) hp)
    rw [List.inj_on_of_nodup_map hsound.one (hsub₁.subset hq) hfound.held
      (hc.trans hfound.caller.symm)]
    exact hfound.digest

theorem runOnce_piece {d : Daemon} {c : Caller} {args : Bytes} {clock now : ℕ}
    {stagings : Caller → Staging} (hsound : PlacesSound stagings clock d)
    (h : RunOnce stagings clock d) (hle : clock ≤ now) :
    RunOnce (fun c' => Staging.after read observes c' (stagings c') ⟨d, .askPart c args now⟩) now
      (askPart d c args now).2 := by
  have hout := askPart_outcome c now hsound.one args
  have hjob := (askPart_frame d c now args).1
  have hsame : ∀ c', (Staging.after read observes c' (stagings c') ⟨d, .askPart c args now⟩).runs =
      (stagings c').runs ∨
      (Staging.after read observes c' (stagings c') ⟨d, .askPart c args now⟩).runs = 0 := by
    intro c'
    cases haccepted : (accepted d (.askPart c args now)).filter fun p => p.1 = c' with
    | none =>
      rw [Staging.after, haccepted]
      exact .inl rfl
    | some found =>
      rw [Staging.after, haccepted]
      dsimp only
      rw [Staging.add]
      split_ifs
      · exact .inr rfl
      · exact .inl rfl
  have hkept : ∀ p ∈ heldIn d.parts, p.have_.length = p.total → Accounted
      (Staging.after read observes p.caller (stagings p.caller) ⟨d, .askPart c args now⟩) now
      (askPart d c args now).2 p := by
    intro p hp hwhole
    rcases h.parts p hp hwhole with hruns | hends | ⟨job, hsome, hfor, hends⟩
    · exact .inl ((hsame p.caller).elim (·.trans hruns) id)
    · exact .inr (.inl (hends.trans hle))
    · exact .inr (.inr ⟨job, hjob.trans hsome, hfor, hends⟩)
  refine ⟨fun c' => ?_, ?_⟩
  · rcases hsame c' with hruns | hruns
    · exact hruns.trans_le (h.most c')
    · rw [hruns]
      exact Nat.zero_le _
  · generalize hfound : (accepted d (.askPart c args now)).map Prod.snd = found at hout
    generalize hparts : heldIn (askPart d c args now).2.parts = parts at hout
    intro p hp hwhole
    cases hout with
    | refused hone hmem =>
      rcases hmem p hp with hold | ⟨q, htotal, -, rfl⟩
      · exact hkept p hold hwhole
      · exact absurd hwhole htotal.ne
    | @first _ q _ hoffset htime hfits hone hmem =>
      rcases hmem p hp with ⟨hold, -⟩ | rfl
      · exact hkept p hold hwhole
      · refine .inl ?_
        dsimp only [Part.with_, opened]
        rw [after_piece hfound, Staging.add, if_pos hoffset]
    | @next _ q p₀ _ hoffset htime hp₀ hcaller hdigest hends hfits hone hmem =>
      rcases hmem p hp with ⟨hold, -⟩ | rfl
      · exact hkept p hold hwhole
      · refine .inl ?_
        have hsome : p₀.have_ ≠ [] := fun hnil =>
          hoffset (by rw [hfits.next, hnil, List.length_nil])
        have hrun := ((hsound.parts p₀ hp₀).collected hsome).runs
        have hc : (p₀.with_ q).caller = c := hcaller
        rw [hc, after_piece hfound, Staging.add, if_neg hoffset, ← hcaller]
        have hpos := List.length_pos_iff.2 hfits.some_
        exact hrun (by have := hfits.room; omega)

theorem runOnce_step {d : Daemon} {a : Act} {clock : ℕ} {stagings : Caller → Staging}
    (hsound : PlacesSound stagings clock d) (h : RunOnce stagings clock d)
    (hle : ∀ now ∈ a.time, clock ≤ now) (hmeets : Meets d a) :
    RunOnce (fun c => Staging.after read observes c (stagings c) ⟨d, a⟩) (a.time.getD clock)
      (serve read observes d a.event) := by
  cases a with
  | ask c args made cap escapedCap now => exact runOnce_ask hsound h (hle now rfl) hmeets
  | askPart c args now => exact runOnce_piece hsound h (hle now rfl)
  | carryOut c args made now => exact runOnce_carryOut hsound h (hle now rfl) hmeets
  | finished result =>
    refine runOnce_sub h rfl (List.Sublist.refl _) (fun c ⟨_, _, hran⟩ => nomatch hran)
      (fun p _ _ hacc => ?_) fun p _ ⟨_, _, hran⟩ => nomatch hran
    refine hacc.imp_right fun h => h.imp_right ?_
    rintro ⟨job, hjob, hfor, hends⟩
    exact ⟨_, congrArg (Option.map _) hjob, hfor, hends⟩

/-! ## Over a run -/

/-- The time of the last act. -/
def clockOf (acts : List Act) : ℕ := (acts.filterMap Act.time).getLast?.getD 0

theorem clockOf_append (acts : List Act) (a : Act) :
    clockOf (acts ++ [a]) = a.time.getD (clockOf acts) := by
  rw [clockOf, List.filterMap_append]
  cases htime : a.time with
  | none => rw [List.filterMap_cons_none htime, List.filterMap_nil, List.append_nil]; rfl
  | some now => rw [List.filterMap_cons_some htime, List.filterMap_nil, List.getLast?_concat]; rfl

theorem timely_append {acts : List Act} {a : Act} (h : Timely (acts ++ [a])) :
    Timely acts ∧ ∀ now ∈ a.time, clockOf acts ≤ now := by
  rw [Timely, List.filterMap_append, List.pairwise_append] at h
  refine ⟨h.1, fun now hnow => ?_⟩
  rw [clockOf]
  cases hlast : (acts.filterMap Act.time).getLast? with
  | none => exact Nat.zero_le _
  | some last =>
    refine h.2.2 last (List.mem_of_getLast? hlast) now ?_
    rw [List.filterMap_cons_some hnow]
    exact List.mem_singleton.2 rfl

variable (read observes) in
/-- The run lemma : what is staged is sound, and runs once. -/
theorem run_sound (acts : List Act) (htimely : Timely acts) :
    PlacesSound (stagingOf read observes (runOf read observes acts).met) (clockOf acts)
        (runOf read observes acts).daemon ∧
      ((∀ m ∈ (runOf read observes acts).met, Meets m.daemon m.act) →
        RunOnce (stagingOf read observes (runOf read observes acts).met) (clockOf acts)
          (runOf read observes acts).daemon) := by
  induction acts using List.reverseRecOn with
  | nil =>
    have hnone : heldIn (runOf read observes []).daemon.parts = [] := rfl
    refine ⟨⟨List.nodup_nil, fun p hp => ?_⟩, fun _ => ⟨fun c => Nat.zero_le _, fun p hp => ?_⟩⟩
    · rw [hnone] at hp
      cases hp
    · rw [hnone] at hp
      cases hp
  | append_singleton acts a ih =>
    obtain ⟨hbefore, hle⟩ := timely_append htimely
    obtain ⟨hsound, honce⟩ := ih hbefore
    have hafter : stagingOf read observes (runOf read observes (acts ++ [a])).met = fun c =>
        Staging.after read observes c (stagingOf read observes (runOf read observes acts).met c)
          ⟨(runOf read observes acts).daemon, a⟩ := by
      funext c
      rw [run_append]
      exact stagingOf_append read observes _ _ c
    rw [hafter, clockOf_append, run_append]
    refine ⟨placesSound_step hsound hle, fun hmeets => ?_⟩
    refine runOnce_step hsound (honce fun m hm => hmeets m (List.mem_append_left _ hm)) hle ?_
    exact hmeets ⟨_, a⟩ (List.mem_append_right _ (List.mem_singleton.2 rfl))

/-- What is collected is the whole request. -/
theorem Collected.whole {s : Staging} {clock now : ℕ} {d : Daemon} {c : Caller} {named : UInt64}
    {p : Part} (h : Collected s clock p) (hfound : Found d c named now p) :
    Whole s.pieces named p.have_ := by
  obtain ⟨first, hfirst, hminute, -⟩ := h.first
  refine ⟨h.bytes, h.order, fun q hq => (h.same q hq).1.trans hfound.whole.symm,
    fun q hq => (h.same q hq).2.1.trans hfound.digest,
    (h.digest hfound.whole).trans hfound.digest, first, hfirst, fun q hq => ?_⟩
  rw [hminute]
  exact (h.same q hq).2.2

/-- After any calls, at the next : each caller has one request staged at most; what the call runs
from staging is what its caller sent for it, whole; what it is answered with was not made for
another; and, where no call runs a request again that its job already has, nothing was run from
staging twice. -/
theorem staged_requests (read : Bytes → Except Bytes ρ) (observes : ρ → Bool) (acts : List Act)
    (a : Act) (htimely : Timely (acts ++ [a])) :
    OneEach (heldIn (runOf read observes acts).daemon.parts) ∧
      (∀ c named bytes,
        ranStaged read observes (runOf read observes acts).daemon a = some (c, named, bytes) →
        Whole (stagingOf read observes (runOf read observes acts).met c).pieces named bytes) ∧
      (∀ c args made cap escapedCap now, a = .ask c args made cap escapedCap now →
        ∀ text, (ask read observes (runOf read observes acts).daemon c args made cap escapedCap
          now).text = some text →
        MayBeTold read (madeIn (runOf read observes (acts ++ [a])).met) c text) ∧
      ((∀ m ∈ (runOf read observes (acts ++ [a])).met, Meets m.daemon m.act) →
        ∀ c, (stagingOf read observes (runOf read observes (acts ++ [a])).met c).runs ≤ 1) := by
  obtain ⟨hsound, -⟩ := run_sound read observes acts (timely_append htimely).1
  refine ⟨hsound.one, fun c named bytes hran => ?_, ?_, fun hmeets =>
    ((run_sound read observes _ htimely).2 hmeets).most⟩
  · obtain ⟨now, p, -, hfound, rfl⟩ := ranStaged_found hran
    exact (hsound.collected hfound).whole hfound
  · rintro c args made cap escapedCap now rfl text htext
    set m : Met := ⟨(runOf read observes acts).daemon, .ask c args made cap escapedCap now⟩
    have howns : Owns (madeIn ((runOf read observes acts).met ++ [m]))
        (runOf read observes acts).daemon := (run_owns acts).mono fun c r hr =>
      madeIn_append (.inl hr)
    have hmade : madeIn ((runOf read observes acts).met ++ [m]) c made.result := by
      refine madeIn_append (.inr ?_)
      simp [m, madeFor]
    rw [run_append]
    exact (ask_owns howns args hmade).2 text htext

end Runs

def anyLine (_ : Bytes) : Except Bytes Unit := .ok ()

def pieceLine (request : Bytes) (start count : ℕ) : Bytes :=
  decimal request.length ++ ascii ' ' :: decimal start ++ ascii ' ' ::
    hex 16 (digest request).toNat ++ ascii ' ' :: (request.drop start).take count

def nameLine (request : Bytes) : Bytes := ascii '@' :: hex 16 (digest request).toNat

def twoPieces : List Act :=
  [.askPart (.here 0) (pieceLine (asciis "ab") 0 1) 0,
   .askPart (.here 0) (pieceLine (asciis "ab") 1 1) 5]

def askByName : Act :=
  .ask (.here 0) (asciis "0 " ++ nameLine (asciis "ab")) (.answered (.ok (asciis "done"))) 8192 0 9

/-- Asked for by its name, what runs is the two pieces, once. -/
theorem two_pieces_run :
    Whole (stagingOf anyLine (fun _ => false) (runOf anyLine (fun _ => false) twoPieces).met
        (.here 0)).pieces (digest (asciis "ab")) (asciis "ab") ∧
      ∀ c, (stagingOf anyLine (fun _ => false)
        (runOf anyLine (fun _ => false) (twoPieces ++ [askByName])).met c).runs ≤ 1 := by
  have h := staged_requests anyLine (fun _ => false) twoPieces askByName
    (by unfold Timely; decide)
  refine ⟨h.2.1 (.here 0) _ _ (by decide +kernel), h.2.2.2 fun m hm => ?_⟩
  rw [run_append] at hm
  rcases List.mem_append.1 hm with hm | hm
  · simp only [twoPieces, runOf, List.foldl_cons, List.foldl_nil, Run.step, List.nil_append,
      List.mem_append, List.mem_singleton] at hm
    rcases hm with rfl | rfl <;> trivial
  · obtain rfl := List.mem_singleton.1 hm
    have hnone : (runOf anyLine (fun _ => false) twoPieces).daemon.job.isNone = true := by
      decide +kernel
    intro p _ _ _ _ start line _ _ _ job hjob
    rw [Option.isNone_iff_eq_none.1 hnone] at hjob
    cases hjob

/-- A request that takes long, staged, asked for by its name and, while the job has it, by `do`. -/
def askedTwice : List Act :=
  twoPieces ++
    [Act.ask (.here 0) (asciis "0 " ++ nameLine (asciis "ab")) (.later (.ok [])) 8192 0 9,
     .carryOut (.here 0) (nameLine (asciis "ab")) (.answered (.ok [])) 10]

/-- `do` runs it a second time. -/
theorem do_runs_it_again :
    ¬∀ acts, Timely acts → ∀ c, (stagingOf anyLine (fun _ => false)
      (runOf anyLine (fun _ => false) acts).met c).runs ≤ 1 := by
  intro h
  have htimely : Timely askedTwice := by
    unfold Timely
    decide
  have htwice : (stagingOf anyLine (fun _ => false)
      (runOf anyLine (fun _ => false) askedTwice).met (.here 0)).runs = 2 := by decide +kernel
  exact absurd (htwice.ge.trans (h askedTwice htimely (.here 0))) (by decide)

end Netcfgd.Ask
