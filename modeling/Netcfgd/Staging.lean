import Netcfgd.AskOnce
import Mathlib.Data.List.ReduceOption

/-!
# A request staged in pieces

`askpart`, `ask` and `do` of `src/main/daemon_ask.c`, as far as they touch the staging places and
the job. What a line of `ask` comes to is one of four outcomes (`LineOutcome`), and what a piece
comes to one of three (`PieceOutcome`); what is said of a run of the daemon follows from these.
-/

namespace Netcfgd.Ask

open Netcfgd.Json (ascii asciis)
open Netcfgd.Pages

/-! ## Calls and what they do -/

/-- A call of one of the three procedures, with what the dispatcher would make of its request, or
the thread of the job being done. -/
inductive Act
  | ask (c : Caller) (args : Bytes) (made : Made) (cap escapedCap now : ℕ)
  | askPart (c : Caller) (args : Bytes) (now : ℕ)
  | carryOut (c : Caller) (args : Bytes) (made : Made) (now : ℕ)
  | finished (result : Except Bytes Bytes)

/-- What the daemon becomes by a call does not depend on what comes of a `do`. -/
def Act.event : Act → Event
  | ask c args made cap escapedCap now => .ask c args made cap escapedCap now
  | askPart c args now => .askPart c args now
  | carryOut c args _ now => .carryOut c args now
  | finished result => .finished result

def Act.time : Act → Option ℕ
  | ask _ _ _ _ _ now => some now
  | askPart _ _ now => some now
  | carryOut _ _ _ now => some now
  | finished _ => none

structure Piece where
  total : ℕ
  offset : ℕ
  digest : UInt64
  bytes : Bytes
  now : ℕ
  deriving DecidableEq, Repr

/-- The line of an `askpart`, TOTAL OFFSET DIGEST PIECE. -/
def pieceOf (args : Bytes) (now : ℕ) : Option Piece := do
  let (total, rest) ← partNumber args
  let (offset, rest) ← partNumber rest
  match hexAt 16 0 rest with
  | some (named, c :: piece) =>
    if c = ascii ' ' then some ⟨total, offset, UInt64.ofNat named, piece, now⟩ else none
  | _ => none

def accepted (d : Daemon) : Act → Option (Caller × Piece)
  | .askPart c args now =>
    match (askPart d c args now).1 with
    | .ok _ => (pieceOf args now).map fun p => (c, p)
    | .error _ => none
  | _ => none

section Runs

variable {ρ : Type*} (read : Bytes → Except Bytes ρ) (observes : ρ → Bool)

/-- What `do` hands to the answer function of a line it has read : it waits where `ask` starts a
job. -/
def handsOver (line : Bytes) (made : Made) : Option Bytes :=
  match read line with
  | .error _ => none
  | .ok _ =>
    match made with
    | .before _ => none
    | .answered _ | .later _ => some line

/-- The request `do` hands to the answer function. -/
def carryOutHanded (d : Daemon) (c : Caller) (args : Bytes) (made : Made) (now : ℕ) :
    Option Bytes :=
  match stagedName args with
  | none => handsOver read args made
  | some none => none
  | some (some named) =>
    ((partOf d c named now).1.filter fun p => p.have_.length = p.total).bind fun p =>
      handsOver read p.have_ made

/-- The staged request a call runs : its caller, the digest it is named by, and the bytes handed to
the answer function. -/
def ranStaged (d : Daemon) : Act → Option (Caller × UInt64 × Bytes)
  | .ask c args made cap escapedCap now => do
    let (_, line) ← offsetAt 0 0 args
    let named ← (stagedName line).join
    let handed ← (ask read observes d c args made cap escapedCap now).handed
    return (c, named, handed)
  | .carryOut c args made now => do
    let named ← (stagedName args).join
    let handed ← carryOutHanded read d c args made now
    return (c, named, handed)
  | .askPart .. | .finished _ => none

end Runs

/-! ## Places -/

abbrev heldIn {α : Type*} (places : List (Option α)) : List α := places.reduceOption

section Places

variable {α : Type*} {late wanted : α → Bool} {places : List (Option α)} {a : α}

variable (late wanted) in
theorem heldIn_seek (places : List (Option α)) :
    (heldIn (seek late wanted places).2).Sublist (heldIn places) ∧
      ∀ a, (seek late wanted places).1 = some a →
        a ∈ heldIn places ∧ late a = false ∧ wanted a = true := by
  induction places with
  | nil => exact ⟨List.Sublist.refl _, fun a h => nomatch h⟩
  | cons place rest ih =>
    obtain ⟨hsub, hfound⟩ := ih
    have hrest : ∀ a, (seek late wanted rest).1 = some a →
        a ∈ heldIn (place :: rest) ∧ late a = false ∧ wanted a = true := fun a ha =>
      ⟨by
        have := (hfound a ha).1
        simp only [List.reduceOption_mem_iff] at this ⊢
        exact List.mem_cons_of_mem _ this, (hfound a ha).2⟩
    cases place with
    | none => exact ⟨hsub, hrest⟩
    | some a =>
      by_cases hover : late a = true
      · simp only [seek, Option.filter_some, hover, Bool.not_true, Bool.false_eq_true, if_false]
        exact ⟨hsub.cons a, hrest⟩
      · rw [Bool.not_eq_true] at hover
        by_cases hwanted : wanted a = true
        · simp only [seek, Option.filter_some, hover, Bool.not_false, if_true, hwanted]
          refine ⟨List.Sublist.refl _, ?_⟩
          rintro _ ⟨⟩
          exact ⟨by simp, hover, hwanted⟩
        · simp only [seek, Option.filter_some, hover, Bool.not_false, if_true, hwanted]
          rw [if_neg Bool.false_ne_true]
          exact ⟨by simpa using hsub, hrest⟩

theorem seek_seek (places : List (Option α)) :
    (seek (fun _ => false) wanted (seek late wanted places).2).1 = (seek late wanted places).1 := by
  induction places with
  | nil => rfl
  | cons place rest ih =>
    cases place with
    | none => exact ih
    | some a =>
      by_cases hover : late a = true
      · simpa only [seek, Option.filter_some, hover, Bool.not_true, Bool.false_eq_true, if_false,
          Option.filter_none] using ih
      · rw [Bool.not_eq_true] at hover
        by_cases hwanted : wanted a = true
        · simp only [seek, Option.filter_some, hover, Bool.not_false, if_true, hwanted]
        · simpa only [seek, Option.filter_some, hover, Bool.not_false, if_true, hwanted,
            Bool.false_eq_true, if_false] using ih

theorem heldIn_letGo (places : List (Option α)) :
    heldIn (letGo wanted places) = (heldIn places).eraseP wanted := by
  induction places with
  | nil => rfl
  | cons place rest ih =>
    cases place with
    | none => exact ih
    | some a =>
      by_cases hwanted : wanted a = true
      · simp [letGo, hwanted]
      · simp [letGo, hwanted, ih]

theorem heldIn_set_none {i : ℕ} (h : places.findIdx? Option.isNone = some i) (a : α) :
    (heldIn (places.set i (some a))).Perm (a :: heldIn places) := by
  induction places generalizing i with
  | nil => cases h
  | cons place rest ih =>
    cases place with
    | none =>
      rw [List.findIdx?_cons, Option.isNone_none, if_pos rfl] at h
      obtain rfl := Option.some.inj h
      simp
    | some b =>
      rw [List.findIdx?_cons, Option.isNone_some, if_neg Bool.false_ne_true,
        Option.map_eq_some_iff] at h
      obtain ⟨i, hi, rfl⟩ := h
      rw [List.set_cons_succ]
      simp only [List.reduceOption_cons_of_some]
      exact ((ih hi).cons b).trans (List.Perm.swap _ _ _)

theorem not_wanted_of_mem_eraseP {κ : Type*} {key : α → κ} {k : κ} {l : List α}
    (hnodup : (l.map key).Nodup) (hkey : ∀ a, wanted a = true → key a = k)
    (h : a ∈ l.eraseP wanted) : wanted a = false := by
  induction l with
  | nil => cases h
  | cons b l ih =>
    rw [List.map_cons, List.nodup_cons] at hnodup
    by_cases hb : wanted b = true
    · rw [List.eraseP_cons_of_pos hb] at h
      by_contra ha
      rw [Bool.not_eq_false] at ha
      exact hnodup.1 (List.mem_map.2 ⟨a, h, (hkey a ha).trans (hkey b hb).symm⟩)
    · rw [List.eraseP_cons_of_neg hb, List.mem_cons] at h
      rcases h with rfl | h
      · exact Bool.eq_false_iff.2 hb
      · exact ih hnodup.2 h

end Places

/-! ## What a line comes to -/

def JobOver (job : Job) (c : Caller) (asked : UInt64) (now : ℕ) : Prop :=
  job.isFor c asked = false ∧ job.ends < now

def JobStays (d d' : Daemon) (c : Caller) (asked : UInt64) (now : ℕ) : Prop :=
  d'.job = d.job ∨ d'.job = none ∧ ∃ job, d.job = some job ∧ JobOver job c asked now

/-- What a line that names a request comes to, as far as the staged requests and the job go : with
what is handed over, and the daemon afterwards. -/
inductive LineOutcome (d : Daemon) (c : Caller) (line : Bytes) (staged : Option UInt64) (now : ℕ) :
    Option Bytes → Daemon → Prop
  /-- Told of a kept answer, of the job not being done, or of a refusal. -/
  | told {d' : Daemon} (hparts : d'.parts = d.parts ∨ d'.parts = (partDone d c staged).parts)
      (hjob : JobStays d d' c (digest line) now) : LineOutcome d c line staged now none d'
  | collected {d' : Daemon} {job : Job} (hparts : d'.parts = (partDone d c staged).parts)
      (hgone : d'.job = none) (hjob : d.job = some job) (hfor : job.isFor c (digest line) = true)
      (hdone : job.result.isSome = true) : LineOutcome d c line staged now none d'
  | ran {d' : Daemon} {handed : Option Bytes} (hhanded : ∀ bytes ∈ handed, bytes = line)
      (hparts : d'.parts = (partDone d c staged).parts)
      (hjob : JobStays d d' c (digest line) now)
      (hfor : ∀ job ∈ d.job, job.isFor c (digest line) = false) :
      LineOutcome d c line staged now handed d'
  | begun {d' : Daemon} (hparts : d'.parts = d.parts)
      (hjob : d'.job = some ⟨c, digest line, now + 60000, none⟩)
      (hgone : ∀ job ∈ d.job, JobOver job c (digest line) now) :
      LineOutcome d c line staged now (some line) d'

section Lines

variable {ρ : Type*} {read : Bytes → Except Bytes ρ} {observes : ρ → Bool}
variable {d : Daemon} {c : Caller} {line : Bytes} {staged : Option UInt64} {made : Made}
variable {start cap escapedCap now : ℕ}

@[simp] theorem finish_parts (asked : UInt64) (handed : Option Bytes)
    (result : Except Bytes Bytes) :
    (finish d c asked handed result start cap escapedCap now).daemon.parts = d.parts := by
  cases result <;> rfl

@[simp] theorem finish_job (asked : UInt64) (handed : Option Bytes) (result : Except Bytes Bytes) :
    (finish d c asked handed result start cap escapedCap now).daemon.job = d.job := by
  cases result <;> rfl

@[simp] theorem partDone_job (d : Daemon) (c : Caller) (staged : Option UInt64) :
    (partDone d c staged).job = d.job := by
  cases staged <;> rfl

theorem partDone_parts_congr {d d' : Daemon} (h : d'.parts = d.parts) (c : Caller)
    (staged : Option UInt64) : (partDone d' c staged).parts = (partDone d c staged).parts := by
  cases staged with
  | none => exact h
  | some named => simp only [partDone, h]

theorem dropJob_parts (d : Daemon) (asked : UInt64) : (dropJob d c asked now).parts = d.parts := by
  rw [dropJob]
  split
  · split <;> rfl
  · rfl

theorem dropJob_stays (d : Daemon) (asked : UInt64) :
    JobStays d (dropJob d c asked now) c asked now := by
  rw [dropJob]
  cases hjob : d.job with
  | none => exact .inl rfl
  | some job =>
    dsimp only
    split_ifs with hdrop
    · simp only [Bool.and_eq_true, Bool.not_eq_true', decide_eq_true_eq] at hdrop
      exact .inr ⟨rfl, job, hjob, hdrop.1.2, hdrop.2⟩
    · exact .inl rfl

theorem dropJob_filter (d : Daemon) (asked : UInt64) :
    (dropJob d c asked now).job.filter (fun job => job.isFor c asked) =
      d.job.filter fun job => job.isFor c asked := by
  rcases @dropJob_stays c now d asked with hsame | ⟨hnone, job, hjob, hfor, -⟩
  · rw [hsame]
  · rw [hnone, hjob, Option.filter_some, hfor]
    rfl

theorem makeAnswer_outcome {d₀ : Daemon} (hparts : d.parts = d₀.parts)
    (hstays : JobStays d₀ d c (digest line) now)
    (hfor : ∀ job ∈ d₀.job, job.isFor c (digest line) = false) :
    LineOutcome d₀ c line staged now
      (makeAnswer d c line staged made start cap escapedCap now).handed
      (makeAnswer d c line staged made start cap escapedCap now).daemon := by
  have hdone : (partDone d c staged).parts = (partDone d₀ c staged).parts :=
    partDone_parts_congr hparts c staged
  have hstays' : ∀ {d' : Daemon}, d'.job = (partDone d c staged).job →
      JobStays d₀ d' c (digest line) now := fun h => by
    rw [JobStays, h, partDone_job]
    exact hstays
  cases made with
  | before result =>
    rw [makeAnswer, finish_handed]
    exact .ran (fun _ h => nomatch h) ((finish_parts _ _ _).trans hdone)
      (hstays' (finish_job _ _ _)) hfor
  | answered result =>
    rw [makeAnswer, finish_handed]
    exact .ran (fun _ h => (Option.some.inj h).symm) ((finish_parts _ _ _).trans hdone)
      (hstays' (finish_job _ _ _)) hfor
  | later inPlace =>
    rw [makeAnswer]
    split_ifs with hnone
    · refine .begun hparts rfl fun job hjob => ?_
      rcases hstays with hsame | ⟨-, job', hjob', hover⟩
      · rw [Option.isNone_iff_eq_none, hsame] at hnone
        rw [hnone] at hjob
        cases hjob
      · obtain rfl : job' = job := Option.some.inj (hjob'.symm.trans hjob)
        exact hover
    · rw [finish_handed]
      exact .ran (fun _ h => (Option.some.inj h).symm) ((finish_parts _ _ _).trans hdone)
        (hstays' (finish_job _ _ _)) hfor

theorem askLine_outcome :
    LineOutcome d c line staged now
      (askLine read observes d c start line staged made cap escapedCap now).handed
      (askLine read observes d c start line staged made cap escapedCap now).daemon := by
  have hdone : (partDone (kept d c (digest line) now).2 c staged).parts =
      (partDone d c staged).parts :=
    partDone_parts_congr (show (kept d c (digest line) now).2.parts = d.parts from rfl) c staged
  unfold askLine
  dsimp only
  split
  · rename_i slot _
    rw [fromSlot]
    dsimp only
    split_ifs
    · exact .told (.inl rfl) (.inl rfl)
    · exact .told (.inl rfl) (.inl rfl)
  · split
    · exact .told (.inr hdone) (.inl (partDone_job _ _ _))
    · split_ifs
      · exact .told (.inr hdone) (.inl (partDone_job _ _ _))
      · have hparts : (dropJob (kept d c (digest line) now).2 c (digest line) now).parts =
            d.parts := dropJob_parts _ _
        have hstays : JobStays d (dropJob (kept d c (digest line) now).2 c (digest line) now) c
            (digest line) now := dropJob_stays (kept d c (digest line) now).2 (digest line)
        have hfilter : (dropJob (kept d c (digest line) now).2 c (digest line) now).job.filter
            (fun job => job.isFor c (digest line)) = d.job.filter
              fun job => job.isFor c (digest line) := dropJob_filter (kept d c _ now).2 _
        rw [hfilter]
        split
        · rename_i hnone
          refine makeAnswer_outcome hparts hstays fun job hjob => ?_
          rw [Option.mem_def] at hjob
          rw [hjob, Option.filter_eq_none_iff] at hnone
          exact Bool.eq_false_iff.2 (hnone job rfl)
        · rename_i job hsome
          obtain ⟨hjob, hfor⟩ := Option.filter_eq_some_iff.1 hsome
          split
          · exact .told (.inl hparts) hstays
          · rename_i result hresult
            rw [finish_handed]
            refine .collected
              ((finish_parts _ _ _).trans (partDone_parts_congr (by exact hparts) c staged))
              ((finish_job _ _ _).trans (partDone_job _ _ _)) hjob hfor ?_
            rw [hresult]
            rfl

theorem LineOutcome.congr {d d₁ d' : Daemon} {handed : Option Bytes} (hparts : d.parts = d₁.parts)
    (hjob : d.job = d₁.job) (h : LineOutcome d c line staged now handed d') :
    LineOutcome d₁ c line staged now handed d' := by
  have hstays : JobStays d d' c (digest line) now → JobStays d₁ d' c (digest line) now :=
    fun h => by
    rwa [JobStays, hjob] at h
  have hdone := partDone_parts_congr hparts c staged
  cases h with
  | told h h' => exact .told (h.imp (·.trans hparts) (·.trans hdone)) (hstays h')
  | collected h hgone h' hfor hresult =>
    exact .collected (h.trans hdone) hgone (hjob ▸ h') hfor hresult
  | ran hhanded h h' hfor => exact .ran hhanded (h.trans hdone) (hstays h') (hjob ▸ hfor)
  | begun h h' hgone => exact .begun (h.trans hparts) h' (hjob ▸ hgone)

variable (read observes d c made cap escapedCap now) in
theorem ask_outcome (args : Bytes) :
    ((ask read observes d c args made cap escapedCap now).handed = none ∧
      (ask read observes d c args made cap escapedCap now).daemon.job = d.job ∧
      ((ask read observes d c args made cap escapedCap now).daemon.parts = d.parts ∨
        ∃ named, (ask read observes d c args made cap escapedCap now).daemon.parts =
          (partOf d c named now).2.parts)) ∨
    (∃ start line, offsetAt 0 0 args = some (start, line) ∧ stagedName line = none ∧
      LineOutcome d c line none now (ask read observes d c args made cap escapedCap now).handed
        (ask read observes d c args made cap escapedCap now).daemon) ∨
    ∃ start line named part, offsetAt 0 0 args = some (start, line) ∧
      stagedName line = some (some named) ∧ (partOf d c named now).1 = some part ∧
      part.have_.length = part.total ∧
      LineOutcome (partOf d c named now).2 c part.have_ (some named) now
        (ask read observes d c args made cap escapedCap now).handed
        (ask read observes d c args made cap escapedCap now).daemon := by
  unfold ask
  cases hargs : offsetAt 0 0 args with
  | none => exact .inl ⟨rfl, rfl, .inl rfl⟩
  | some found =>
    obtain ⟨start, line⟩ := found
    dsimp only
    cases hname : stagedName line with
    | none => exact .inr (.inl ⟨start, line, rfl, hname, askLine_outcome⟩)
    | some named =>
      cases named with
      | none => exact .inl ⟨rfl, rfl, .inl rfl⟩
      | some named =>
        dsimp only
        have hkept : ∀ found : Option Slot × Daemon, found.2.parts = d.parts →
            found.2.job = d.job → (partOf found.2 c named now).1 = (partOf d c named now).1 ∧
              (partOf found.2 c named now).2.parts = (partOf d c named now).2.parts ∧
              (partOf found.2 c named now).2.job = (partOf d c named now).2.job :=
          fun found hparts hjob => by simp only [partOf, hparts, hjob, and_self]
        have hfound : (if 0 < start then kept d c named now else (none, d)).2.parts = d.parts ∧
            (if 0 < start then kept d c named now else (none, d)).2.job = d.job := by
          split_ifs <;> exact ⟨rfl, rfl⟩
        generalize (if 0 < start then kept d c named now else (none, d)) = found at hfound ⊢
        obtain ⟨hpart, hparts, hjob⟩ := hkept found hfound.1 hfound.2
        obtain ⟨_ | slot, d₁⟩ := found
        · dsimp only at hpart hparts hjob hfound ⊢
          rw [hpart]
          split
          · exact .inl ⟨rfl, hfound.2, .inr ⟨named, hparts⟩⟩
          · rename_i part hsome
            obtain ⟨hpart, hwhole⟩ := Option.filter_eq_some_iff.1 hsome
            exact .inr (.inr ⟨start, line, named, part, rfl, hname, hpart,
              of_decide_eq_true hwhole, (askLine_outcome).congr hparts hjob⟩)
        · dsimp only at hfound ⊢
          rw [fromSlot]
          dsimp only
          refine .inl ⟨rfl, ?_, .inl ?_⟩
          · split_ifs <;> exact hfound.2
          · split_ifs <;> exact hfound.1

end Lines

/-! ## What a piece comes to -/

def OneEach (parts : List Part) : Prop := (parts.map Part.caller).Nodup

theorem OneEach.sublist {parts sub : List Part} (h : OneEach parts) (hsub : sub.Sublist parts) :
    OneEach sub :=
  List.Nodup.sublist (hsub.map _) h

def Part.with_ (p : Part) (q : Piece) : Part := { p with have_ := p.have_ ++ q.bytes }

def opened (c : Caller) (q : Piece) : Part := ⟨c, q.digest, q.total, [], q.now + 60000⟩

/-- A piece fits a part : it is next, not over the end, and as the digest says if it is the last. -/
structure Fits (p : Part) (q : Piece) : Prop where
  total : p.total = q.total
  next : q.offset = p.have_.length
  some_ : q.bytes ≠ []
  room : p.have_.length + q.bytes.length ≤ p.total
  digest : p.have_.length + q.bytes.length = p.total → Pages.digest (p.have_ ++ q.bytes) = p.digest

/-- What a piece comes to : with the piece where it is accepted, and what is staged afterwards. -/
inductive PieceOutcome (d : Daemon) (c : Caller) (piece : Option Piece) (now : ℕ) :
    Option Piece → List Part → Prop
  | refused {parts : List Part} (hone : OneEach parts)
      (hparts : ∀ p ∈ parts, p ∈ heldIn d.parts ∨ ∃ q, 0 < q.total ∧ q.now = now ∧ p = opened c q) :
      PieceOutcome d c piece now none parts
  | first {parts : List Part} {q : Piece} (hpiece : piece = some q) (hoffset : q.offset = 0)
      (htime : q.now = now) (hfits : Fits (opened c q) q) (hone : OneEach parts)
      (hparts : ∀ p ∈ parts, p ∈ heldIn d.parts ∧ p.caller ≠ c ∨ p = (opened c q).with_ q) :
      PieceOutcome d c piece now (some q) parts
  | next {parts : List Part} {q : Piece} {p : Part} (hpiece : piece = some q)
      (hoffset : q.offset ≠ 0) (htime : q.now = now) (hp : p ∈ heldIn d.parts)
      (hcaller : p.caller = c) (hdigest : p.digest = q.digest) (hends : now < p.ends)
      (hfits : Fits p q) (hone : OneEach parts)
      (hparts : ∀ p' ∈ parts, p' ∈ heldIn d.parts ∧ p'.caller ≠ c ∨ p' = p.with_ q) :
      PieceOutcome d c piece now (some q) parts

section Pieces

variable {d : Daemon} {c : Caller} {now : ℕ}

theorem heldIn_partOf (d : Daemon) (c : Caller) (named : UInt64) (now : ℕ) :
    (heldIn (partOf d c named now).2.parts).Sublist (heldIn d.parts) ∧
      ∀ p, (partOf d c named now).1 = some p →
        p ∈ heldIn d.parts ∧ now < p.ends ∧ p.digest = named ∧ p.caller = c := by
  obtain ⟨hsub, hfound⟩ := heldIn_seek (fun p => decide (p.ends ≤ now))
    (fun p : Part => decide (p.digest = named ∧ p.caller = c)) d.parts
  refine ⟨hsub, fun p hp => ?_⟩
  obtain ⟨hin, hover, hwanted⟩ := hfound p hp
  exact ⟨hin, not_le.1 (of_decide_eq_false hover), of_decide_eq_true hwanted⟩

theorem heldIn_map_filter (keep : Part → Bool) (places : List (Option Part)) :
    heldIn (places.map fun place => place.filter keep) = (heldIn places).filter keep := by
  induction places with
  | nil => rfl
  | cons place rest ih =>
    cases place with
    | none => exact ih
    | some p =>
      by_cases hp : keep p = true
      · rw [List.map_cons, Option.filter_some, if_pos hp]
        exact (congrArg (p :: ·) ih).trans (List.filter_cons_of_pos hp).symm
      · rw [List.map_cons, Option.filter_some, if_neg hp]
        exact ih.trans (List.filter_cons_of_neg hp).symm

theorem stagePart_ok {q : Piece} {d' : Daemon} (hone : OneEach (heldIn d.parts))
    (h : stagePart d c q.digest q.total q.now = .ok d') :
    d'.job = d.job ∧ d'.slots = d.slots ∧ OneEach (heldIn d'.parts) ∧
      opened c q ∈ heldIn d'.parts ∧
      ∀ p ∈ heldIn d'.parts, p ∈ heldIn d.parts ∧ p.caller ≠ c ∨ p = opened c q := by
  unfold stagePart at h
  dsimp only at h
  split at h
  · cases h
  · rename_i i hi
    obtain rfl := Except.ok.inj h
    have hperm := heldIn_set_none hi (opened c q)
    rw [heldIn_map_filter] at hperm
    have hold : ∀ p ∈ (heldIn d.parts).filter (fun p => decide (p.caller ≠ c)),
        p ∈ heldIn d.parts ∧ p.caller ≠ c := fun p hp =>
      ⟨(List.mem_filter.1 hp).1, of_decide_eq_true (List.mem_filter.1 hp).2⟩
    refine ⟨rfl, rfl, ?_, hperm.mem_iff.2 List.mem_cons_self, fun p hp => ?_⟩
    · rw [OneEach]
      refine (hperm.map Part.caller).nodup_iff.2 (List.nodup_cons.2 ⟨fun hin => ?_, ?_⟩)
      · obtain ⟨p, hp, hcaller⟩ := List.mem_map.1 hin
        exact (hold p hp).2 hcaller
      · exact hone.sublist List.filter_sublist
    · rcases List.mem_cons.1 (hperm.mem_iff.1 hp) with rfl | hp
      · exact .inr rfl
      · exact .inl (hold p hp)

/-- The piece put where it belongs : the later part of `ncfg_main_ask_part`. -/
def putPiece (d : Daemon) (c : Caller) (q : Piece) : Except String (ℕ × ℕ) × Daemon :=
  let wanted := fun p : Part => decide (p.digest = q.digest ∧ p.caller = c)
  match (seek (fun _ => false) wanted d.parts).1 with
  | none => (.error ("the pieces of a request arrive in order from 0, and this is not " ++
      "the next one"), d)
  | some part =>
    if part.total ≠ q.total ∨ q.offset ≠ part.have_.length then
      (.error ("the pieces of a request arrive in order from 0, and this is not " ++
        "the next one"), d)
    else if q.bytes = [] ∨ q.total - part.have_.length < q.bytes.length then
      (.error "that piece does not fit the request", d)
    else if (part.with_ q).have_.length = part.total ∧
        Pages.digest (part.with_ q).have_ ≠ part.digest then
      (.error ("the pieces joined are not the request their digest names; send it " ++
        "again from 0"), { d with parts := letGo wanted d.parts })
    else
      (.ok ((part.with_ q).have_.length, part.total),
        { d with parts := d.parts.map fun place =>
            place.map fun p => if wanted p then part.with_ q else p })

def takePiece (d : Daemon) (c : Caller) (q : Piece) : Except String (ℕ × ℕ) × Daemon :=
  if q.total = 0 ∨ partMax < q.total then
    (.error "a request staged in pieces is at most 256 KiB", d)
  else
    match (if q.offset = 0 then stagePart (partOf d c q.digest q.now).2 c q.digest q.total q.now
      else .ok (partOf d c q.digest q.now).2) with
    | .error why => (.error why, (partOf d c q.digest q.now).2)
    | .ok d => putPiece d c q

variable (d c now) in
theorem askPart_eq (args : Bytes) :
    (∃ q, pieceOf args now = some q ∧ q.now = now ∧ askPart d c args now = takePiece d c q) ∨
      pieceOf args now = none ∧ ∃ why, askPart d c args now = (.error why, d) := by
  unfold askPart pieceOf
  cases partNumber args with
  | none => exact .inr ⟨rfl, _, rfl⟩
  | some found =>
    obtain ⟨total, rest⟩ := found
    simp only [Option.bind_eq_bind, Option.bind_some, Option.pure_def]
    cases partNumber rest with
    | none => exact .inr ⟨rfl, _, rfl⟩
    | some found =>
      obtain ⟨offset, rest'⟩ := found
      simp only [Option.bind_some]
      rcases hexAt 16 0 rest' with _ | ⟨named, _ | ⟨mark, piece⟩⟩
      · exact .inr ⟨rfl, _, rfl⟩
      · exact .inr ⟨rfl, _, rfl⟩
      · by_cases hmark : mark = ascii ' '
        · exact .inl ⟨_, if_pos hmark, rfl, if_neg (not_not.2 hmark)⟩
        · exact .inr ⟨if_neg hmark, _, if_pos hmark⟩

theorem putPiece_frame (q : Piece) :
    (putPiece d c q).2.job = d.job ∧ (putPiece d c q).2.slots = d.slots := by
  unfold putPiece
  dsimp only
  split
  · exact ⟨rfl, rfl⟩
  · split_ifs <;> exact ⟨rfl, rfl⟩

theorem putPiece_outcome (q : Piece) (hone : OneEach (heldIn d.parts)) :
    (∃ why, (putPiece d c q).1 = .error why) ∧
        OneEach (heldIn (putPiece d c q).2.parts) ∧
        (∀ p ∈ heldIn (putPiece d c q).2.parts, p ∈ heldIn d.parts) ∨
      ∃ p ∈ heldIn d.parts, p.caller = c ∧ p.digest = q.digest ∧ Fits p q ∧
        (seek (fun _ => false) (fun p : Part => decide (p.digest = q.digest ∧ p.caller = c))
          d.parts).1 = some p ∧ (∃ said, (putPiece d c q).1 = .ok said) ∧
          OneEach (heldIn (putPiece d c q).2.parts) ∧
        ∀ p' ∈ heldIn (putPiece d c q).2.parts,
          p' ∈ heldIn d.parts ∧ p'.caller ≠ c ∨ p' = p.with_ q := by
  unfold putPiece
  dsimp only
  obtain ⟨-, hfound⟩ := heldIn_seek (fun _ => false)
    (fun p : Part => decide (p.digest = q.digest ∧ p.caller = c)) d.parts
  generalize hseek : (seek (fun _ => false)
    (fun p : Part => decide (p.digest = q.digest ∧ p.caller = c)) d.parts).1 = found at hfound ⊢
  cases found with
  | none => exact .inl ⟨⟨_, rfl⟩, hone, fun p hp => hp⟩
  | some part =>
    obtain ⟨hin, -, hwanted⟩ := hfound part rfl
    obtain ⟨hdigest, hcaller⟩ := of_decide_eq_true hwanted
    dsimp only
    split_ifs with hnext hroom hwhole
    · exact .inl ⟨⟨_, rfl⟩, hone, fun p hp => hp⟩
    · exact .inl ⟨⟨_, rfl⟩, hone, fun p hp => hp⟩
    · refine .inl ⟨⟨_, rfl⟩, ?_, ?_⟩
      · dsimp only
        rw [heldIn_letGo]
        exact hone.sublist List.eraseP_sublist
      · dsimp only
        rw [heldIn_letGo]
        exact fun p hp => List.mem_of_mem_eraseP hp
    · push Not at hnext hroom
      have hfits : Fits part q := by
        refine ⟨hnext.1, hnext.2, hroom.1, ?_, fun hfull => ?_⟩
        · have := List.length_pos_iff.2 hroom.1
          omega
        · by_contra hno
          exact hwhole ⟨by rw [Part.with_, List.length_append]; exact hfull, hno⟩
      have hsole : ∀ p ∈ heldIn d.parts, p.caller = c → p = part := fun p hp hc =>
        List.inj_on_of_nodup_map hone hp hin (hc.trans hcaller.symm)
      have hmap : heldIn (d.parts.map fun place => place.map fun p =>
          if decide (p.digest = q.digest ∧ p.caller = c) = true then part.with_ q else p) =
          (heldIn d.parts).map fun p =>
            if decide (p.digest = q.digest ∧ p.caller = c) = true then part.with_ q else p :=
        List.reduceOption_map
      refine .inr ⟨part, hin, hcaller, hdigest, hfits, rfl, ⟨_, rfl⟩, ?_, fun p' hp' => ?_⟩
      · dsimp only
        rw [hmap, OneEach, List.map_map]
        have hcallers : (heldIn d.parts).map (Part.caller ∘ fun p =>
            if decide (p.digest = q.digest ∧ p.caller = c) = true then part.with_ q else p) =
            (heldIn d.parts).map Part.caller := by
          refine List.map_congr_left fun p hp => ?_
          rw [Function.comp_apply]
          split_ifs with h
          · exact hcaller.trans (of_decide_eq_true h).2.symm
          · rfl
        rw [hcallers]
        exact hone
      · dsimp only at hp'
        rw [hmap] at hp'
        obtain ⟨p, hp, rfl⟩ := List.mem_map.1 hp'
        split_ifs with h
        · exact .inr rfl
        · refine .inl ⟨hp, fun hc => h ?_⟩
          rw [hsole p hp hc]
          exact hwanted

theorem takePiece_frame (q : Piece) :
    (takePiece d c q).2.job = d.job ∧ (takePiece d c q).2.slots = d.slots := by
  unfold takePiece
  split_ifs with hsize hoffset
  · exact ⟨rfl, rfl⟩
  · cases hstage : stagePart (partOf d c q.digest q.now).2 c q.digest q.total q.now with
    | error why => exact ⟨rfl, rfl⟩
    | ok d' =>
      have hframe : d'.job = d.job ∧ d'.slots = d.slots := by
        unfold stagePart at hstage
        dsimp only at hstage
        split at hstage
        · cases hstage
        · obtain rfl := Except.ok.inj hstage
          exact ⟨rfl, rfl⟩
      exact ⟨(putPiece_frame q).1.trans hframe.1, (putPiece_frame q).2.trans hframe.2⟩
  · exact putPiece_frame (d := (partOf d c q.digest q.now).2) q

variable (d c now) in
theorem askPart_frame (args : Bytes) :
    (askPart d c args now).2.job = d.job ∧ (askPart d c args now).2.slots = d.slots := by
  rcases askPart_eq d c now args with ⟨q, -, -, heq⟩ | ⟨-, why, heq⟩
  · rw [heq]
    exact takePiece_frame q
  · rw [heq]
    exact ⟨rfl, rfl⟩

theorem takePiece_outcome (q : Piece) (hone : OneEach (heldIn d.parts)) :
    PieceOutcome d c (some q) q.now
      (match (takePiece d c q).1 with
        | .ok _ => some q
        | .error _ => none)
      (heldIn (takePiece d c q).2.parts) := by
  obtain ⟨hsub, -⟩ := heldIn_partOf d c q.digest q.now
  have hone₁ := hone.sublist hsub
  unfold takePiece
  split_ifs with hsize hoffset
  · exact .refused hone fun p hp => .inl hp
  · cases hstage : stagePart (partOf d c q.digest q.now).2 c q.digest q.total q.now with
    | error why => exact .refused hone₁ fun p hp => .inl (hsub.subset hp)
    | ok d' =>
      obtain ⟨-, -, hone₂, -, hmem⟩ := stagePart_ok hone₁ hstage
      dsimp only
      rcases putPiece_outcome (c := c) q hone₂ with ⟨⟨why, hwhy⟩, hone₃, hsame⟩ |
        ⟨p, hp, hcaller, -, hfits, -, ⟨said, hsaid⟩, hone₃, hothers⟩
      · rw [hwhy]
        refine .refused hone₃ fun p hp => ?_
        rcases hmem p (hsame p hp) with h | h
        · exact .inl (hsub.subset h.1)
        · exact .inr ⟨q, by omega, rfl, h⟩
      · rw [hsaid]
        obtain rfl : p = opened c q := (hmem p hp).resolve_left fun h => h.2 hcaller
        refine .first rfl hoffset rfl hfits hone₃ fun p' hp' => ?_
        rcases hothers p' hp' with ⟨hin, hne⟩ | h
        · refine .inl ((hmem p' hin).elim (fun h => ⟨hsub.subset h.1, hne⟩) fun h => ?_)
          exact absurd (congrArg Part.caller h) hne
        · exact .inr h
  · dsimp only
    rcases putPiece_outcome (c := c) q hone₁ with ⟨⟨why, hwhy⟩, hone₃, hsame⟩ |
      ⟨p, hp, hcaller, hdigest, hfits, hfound, ⟨said, hsaid⟩, hone₃, hothers⟩
    · rw [hwhy]
      exact .refused hone₃ fun p hp => .inl (hsub.subset (hsame p hp))
    · have hends : q.now < p.ends :=
        ((heldIn_partOf d c q.digest q.now).2 p ((seek_seek _).symm.trans hfound)).2.1
      rw [hsaid]
      exact .next rfl hoffset rfl (hsub.subset hp) hcaller hdigest hends hfits hone₃ fun p' hp' =>
        (hothers p' hp').imp_left fun h => ⟨hsub.subset h.1, h.2⟩

variable (c now) in
theorem askPart_outcome (hone : OneEach (heldIn d.parts)) (args : Bytes) :
    PieceOutcome d c (pieceOf args now) now
      ((accepted d (.askPart c args now)).map Prod.snd)
      (heldIn (askPart d c args now).2.parts) := by
  rw [accepted]
  rcases askPart_eq d c now args with ⟨q, hpiece, rfl, heq⟩ |
    ⟨hpiece, why, heq⟩
  · rw [heq, hpiece]
    have := takePiece_outcome (c := c) q hone
    cases h : (takePiece d c q).1 with
    | ok said => rwa [h] at this
    | error why => rwa [h] at this
  · rw [heq, hpiece]
    exact .refused hone fun p hp => .inl hp

end Pieces

end Netcfgd.Ask
