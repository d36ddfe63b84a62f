import Mathlib.Data.List.Nodup
import Mathlib.Data.List.Permutation
import Netcfgd.JsonWrite

/-!
# What an earlier run left behind

`src/daemon/leftovers.c` : every process in netcfgd's control group is recorded, claimed, a helper
of one that is, or accounted for by nothing. Helpers are found in a second pass over the findings,
which walks up the parents and changes the verdicts it reads on the way.

What a walk finds before any verdict is changed is `anchorOf`. The order of the list makes no
difference exactly where no such anchor has an anchor of its own (`orderFree_iff`) : then every
finding is what the first walk says (`classify_of_settled`). Otherwise it is either a helper that is
anchored at a helper, or a process that is a helper in one order and not in another.
-/

namespace Netcfgd.Leftover

open Json

/-! ## The findings -/

/-- `ncfg_leftover_process_t`, but for the program, which only the report names. -/
structure Process where
  pid : ℤ
  parent : ℤ
  command : List UInt8
  deriving DecidableEq, Repr

/-- What is in the control group. `/proc` lists a process once. -/
structure ControlGroup where
  found : List Process
  once : (found.map Process.pid).Nodup

/-- What the record of the previous run says : the pids it wrote down, and the interfaces it claims
a backend on. -/
structure Record where
  pids : List ℤ
  claimed : List (Option (List UInt8))

/-- `ncfg_leftover_verdict_t`. -/
inductive Verdict
  | recorded
  | claimed
  | helper
  | unaccounted
  deriving DecidableEq, Repr

/-- `ncfg_leftover_finding_t`. -/
structure Finding where
  process : Process
  verdict : Verdict
  anchor : ℤ := 0
  deriving DecidableEq, Repr

def isWord (c : UInt8) : Bool :=
  (97 ≤ c && c ≤ 122) || (65 ≤ c && c ≤ 90) || (48 ≤ c && c ≤ 57)

/-- The search of `names_interface`, after a byte and a number of bytes still to be skipped. -/
def namesFrom (iface : List UInt8) : UInt8 → ℕ → List UInt8 → Bool
  | _, _, [] => false
  | _, skip + 1, c :: rest => namesFrom iface c skip rest
  | before, 0, c :: rest =>
    if iface.isPrefixOf (c :: rest) then
      if !isWord before && !isWord (((c :: rest).drop iface.length).headD 0) then true
      else namesFrom iface c (iface.length - 1) rest
    else namesFrom iface c 0 rest

/-- `names_interface` : the command has the interface as a whole word. -/
def namesInterface (command iface : List UInt8) : Bool :=
  !iface.isEmpty && namesFrom iface (ascii ' ') 0 command

/-- `is_claimed`. -/
def isClaimed (r : Record) (p : Process) : Bool :=
  !p.command.isEmpty && r.claimed.any fun iface => iface.any (namesInterface p.command)

/-- `NCFG_LEFTOVER_WALK_MAX`. -/
def walkMax : ℕ := 16

section

variable (r : Record)

def firstFinding (p : Process) : Finding where
  process := p
  verdict := if p.pid ∈ r.pids then .recorded else if isClaimed r p then .claimed else .unaccounted

/-- `entry_for`. -/
def entryFor (found : List Process) (pid : ℤ) : Option Process :=
  found.find? fun p => p.pid = pid

/-- The walk up the parents : the pid it ends at, where that is one that counts. `claimed` is what
counts as claimed at the time. -/
def walk (found : List Process) (claimed : ℤ → Bool) : ℕ → ℤ → Option ℤ
  | 0, _ => none
  | steps + 1, parent =>
    if parent ≤ 0 then none
    else if parent ∈ r.pids then some parent
    else match entryFor found parent with
      | none => none
      | some above =>
        if claimed parent then some parent else walk found claimed steps above.parent

def claimedIn (out : List Finding) (pid : ℤ) : Bool :=
  out.any fun f => f.process.pid = pid && f.verdict = .claimed

def settle (found : List Process) (out : List Finding) (f : Finding) : Finding :=
  if f.verdict = .unaccounted ∨ f.verdict = .claimed then
    match walk r found (claimedIn out) walkMax f.process.parent with
    | some anchor => { f with verdict := .helper, anchor }
    | none => f
  else f

def reconsider (found : List Process) (out : List Finding) (at_ : ℕ) : List Finding :=
  match out[at_]? with
  | some f => out.set at_ (settle r found out f)
  | none => out

/-- `ncfg_leftovers_classify`. -/
def classify (found : List Process) (outMax : ℕ) : List Finding :=
  let out := (found.take outMax).map (firstFinding r)
  (List.range out.length).foldl (reconsider r found) out

end

/-! ## What is expected of them -/

/-- The ancestors of a process, by the number of steps up, through the control group only. -/
inductive Ancestor (found : List Process) (p : Process) : ℕ → ℤ → Prop
  | parent : 0 < p.parent → Ancestor found p 1 p.parent
  | step {n : ℕ} {q : Process} : Ancestor found p n q.pid → q ∈ found → 0 < q.parent →
      Ancestor found p (n + 1) q.parent

def Accounted (r : Record) (found : List Process) (pid : ℤ) : Prop :=
  pid ∈ r.pids ∨ ∃ p ∈ found, p.pid = pid ∧ isClaimed r p = true

/-- A process with an ancestor near enough that is accounted for. -/
def HangsOff (r : Record) (found : List Process) (p : Process) : Prop :=
  ∃ n a, n ≤ walkMax ∧ Ancestor found p n a ∧ Accounted r found a

/-- What a list of findings says of the processes does not depend on its order. -/
structure OrderFree (r : Record) (g : ControlGroup) (outMax : ℕ) : Prop where
  same : ∀ l l' : List Process, l.Perm g.found → l'.Perm g.found → ∀ f,
    f ∈ classify r l outMax ↔ f ∈ classify r l' outMax
  unaccounted : ∀ l : List Process, l.Perm g.found → ∀ f ∈ classify r l outMax,
    f.verdict = .unaccounted ↔
      f.process.pid ∉ r.pids ∧ isClaimed r f.process = false ∧ ¬HangsOff r g.found f.process
  anchored : ∀ l : List Process, l.Perm g.found → ∀ f ∈ classify r l outMax, f.verdict = .helper →
    ∀ h ∈ classify r l outMax, h.process.pid = f.anchor → h.verdict ≠ .helper

/-- The ancestor the walk finds. -/
def anchorOf (r : Record) (found : List Process) (p : Process) : Option ℤ :=
  walk r found (claimedIn (found.map (firstFinding r))) walkMax p.parent

/-- Every anchor is recorded, or a claimed process that has no anchor of its own. -/
def Settled (r : Record) (found : List Process) : Prop :=
  ∀ p ∈ found, p.pid ∉ r.pids → ∀ q ∈ found, q.pid ∉ r.pids →
    anchorOf r found p = some q.pid → anchorOf r found q = none

/-! ## The walk -/

section

variable {r : Record} {found : List Process}

theorem walk_stable {claimed now : ℤ → Bool} (hsub : ∀ pid, now pid = true → claimed pid = true) :
    ∀ (steps : ℕ) (parent : ℤ),
      (∀ a, walk r found claimed steps parent = some a → a ∉ r.pids → now a = true) →
      walk r found now steps parent = walk r found claimed steps parent := by
  intro steps
  induction steps with
  | zero => exact fun _ _ => rfl
  | succ steps ih =>
    intro parent hend
    unfold walk at hend ⊢
    by_cases hpos : parent ≤ 0
    · simp [hpos]
    by_cases hrec : parent ∈ r.pids
    · simp [hpos, hrec]
    · rw [if_neg hpos, if_neg hrec] at hend ⊢
      rw [if_neg hpos, if_neg hrec]
      cases hfound : entryFor found parent with
      | none => rfl
      | some above =>
        simp only [hfound] at hend ⊢
        cases hclaimed : claimed parent with
        | true =>
          have hnow : now parent = true := hend parent (by simp [hclaimed]) hrec
          simp [hnow]
        | false =>
          have hnow : now parent = false := by
            by_contra hnow
            have := hsub parent (by simpa using hnow)
            simp [hclaimed] at this
          rw [hclaimed, if_neg Bool.false_ne_true] at hend
          simpa [hnow] using ih above.parent hend

variable {p : Process}

theorem entryFor_mem {pid : ℤ} (h : entryFor found pid = some p) :
    p ∈ found ∧ p.pid = pid :=
  ⟨List.mem_of_find?_eq_some h, by simpa using List.find?_some h⟩

theorem eq_of_pid (honce : (found.map Process.pid).Nodup) {q : Process} (hp : p ∈ found)
    (hq : q ∈ found) (h : p.pid = q.pid) : p = q :=
  List.inj_on_of_nodup_map honce hp hq h

theorem entryFor_of_mem (honce : (found.map Process.pid).Nodup) (hp : p ∈ found) :
    entryFor found p.pid = some p := by
  cases h : entryFor found p.pid with
  | none =>
    have := List.find?_eq_none.mp h p hp
    simp at this
  | some q =>
    obtain ⟨hq, hpid⟩ := entryFor_mem h
    rw [eq_of_pid honce hq hp hpid]

theorem entryFor_perm {l : List Process} (hl : l.Perm found)
    (honce : (found.map Process.pid).Nodup) (pid : ℤ) : entryFor l pid = entryFor found pid := by
  cases h : entryFor l pid with
  | none =>
    refine (List.find?_eq_none.mpr fun p hp => ?_).symm
    exact List.find?_eq_none.mp h p (hl.symm.subset hp)
  | some p =>
    obtain ⟨hp, rfl⟩ := entryFor_mem h
    exact (entryFor_of_mem honce (hl.subset hp)).symm

theorem firstFinding_process (p : Process) : (firstFinding r p).process = p := rfl

theorem firstFinding_claimed :
    (firstFinding r p).verdict = .claimed ↔ p.pid ∉ r.pids ∧ isClaimed r p = true := by
  unfold firstFinding
  split_ifs <;> simp_all

theorem claimedIn_first {pid : ℤ} :
    claimedIn (found.map (firstFinding r)) pid = true ↔
      ∃ p ∈ found, p.pid = pid ∧ p.pid ∉ r.pids ∧ isClaimed r p = true := by
  unfold claimedIn
  simp only [List.any_map, List.any_eq_true, Function.comp_apply, Bool.and_eq_true,
    decide_eq_true_eq, firstFinding_claimed]
  rfl

theorem walk_congr {l : List Process} (hentry : ∀ pid, entryFor l pid = entryFor found pid)
    (claimed : ℤ → Bool) : ∀ (steps : ℕ) (parent : ℤ),
      walk r l claimed steps parent = walk r found claimed steps parent := by
  intro steps
  induction steps with
  | zero => exact fun _ => rfl
  | succ steps ih =>
    intro parent
    simp only [walk, hentry, ih]

theorem anchorOf_perm {l : List Process} (hl : l.Perm found)
    (honce : (found.map Process.pid).Nodup) : anchorOf r l = anchorOf r found := by
  have hclaimed : claimedIn (l.map (firstFinding r)) = claimedIn (found.map (firstFinding r)) := by
    funext pid
    rw [Bool.eq_iff_iff, claimedIn_first, claimedIn_first]
    simp only [hl.mem_iff]
  funext p
  unfold anchorOf
  rw [hclaimed, walk_congr (entryFor_perm hl honce)]

/-! ## Ancestors -/

theorem Ancestor.up {q : Process} {n : ℕ} {a : ℤ} (hq : q ∈ found) (hpid : q.pid = p.parent)
    (hpos : 0 < p.parent) (h : Ancestor found q n a) : Ancestor found p (n + 1) a := by
  induction h with
  | parent h => exact .step (hpid ▸ .parent hpos) hq h
  | step _ hmem h ih => exact .step ih hmem h

theorem Ancestor.cases_first {n : ℕ} {a : ℤ} (h : Ancestor found p n a) :
    0 < p.parent ∧ (n = 1 ∧ a = p.parent ∨
      ∃ q ∈ found, q.pid = p.parent ∧ ∃ m, n = m + 1 ∧ Ancestor found q m a) := by
  induction h with
  | parent h => exact ⟨h, .inl ⟨rfl, rfl⟩⟩
  | @step n q _ hq hpos ih =>
    obtain ⟨hparent, ⟨rfl, hpid⟩ | ⟨q', hq', hpid, m, rfl, hup⟩⟩ := ih
    · exact ⟨hparent, .inr ⟨q, hq, hpid, 1, rfl, .parent hpos⟩⟩
    · exact ⟨hparent, .inr ⟨q', hq', hpid, m + 1, rfl, .step hup hq hpos⟩⟩

theorem ancestor_of_walk : ∀ (steps : ℕ) (p : Process) (a : ℤ),
    walk r found (claimedIn (found.map (firstFinding r))) steps p.parent = some a →
    ∃ n ≤ steps, Ancestor found p n a ∧ Accounted r found a := by
  intro steps
  induction steps with
  | zero => intro p a h; cases h
  | succ steps ih =>
    intro p a h
    unfold walk at h
    by_cases hpos : p.parent ≤ 0
    · simp [hpos] at h
    rw [if_neg hpos] at h
    by_cases hrec : p.parent ∈ r.pids
    · rw [if_pos hrec, Option.some_inj] at h
      subst h
      exact ⟨1, by omega, .parent (by omega), .inl hrec⟩
    · rw [if_neg hrec] at h
      cases hfound : entryFor found p.parent with
      | none => simp [hfound] at h
      | some q =>
        obtain ⟨hq, hpid⟩ := entryFor_mem hfound
        simp only [hfound] at h
        split_ifs at h with hclaimed
        · cases h
          obtain ⟨c, hc, hcpid, -, hcl⟩ := claimedIn_first.mp hclaimed
          exact ⟨1, by omega, .parent (by omega), .inr ⟨c, hc, hcpid, hcl⟩⟩
        · obtain ⟨n, hn, hup, hacc⟩ := ih q a h
          exact ⟨n + 1, by omega, hup.up hq hpid (by omega), hacc⟩

theorem walk_of_ancestor (honce : (found.map Process.pid).Nodup) : ∀ (steps n : ℕ) (p : Process)
    (a : ℤ), n ≤ steps → Ancestor found p n a → Accounted r found a →
    walk r found (claimedIn (found.map (firstFinding r))) steps p.parent ≠ none := by
  intro steps
  induction steps with
  | zero =>
    intro n p a hn hup
    obtain ⟨-, ⟨rfl, -⟩ | ⟨-, -, -, m, rfl, -⟩⟩ := hup.cases_first <;> omega
  | succ steps ih =>
    intro n p a hn hup hacc
    obtain ⟨hpos, hfirst⟩ := hup.cases_first
    unfold walk
    rw [if_neg (by omega)]
    by_cases hrec : p.parent ∈ r.pids
    · simp [hrec]
    rw [if_neg hrec]
    obtain ⟨-, rfl⟩ | ⟨q, hq, hpid, m, rfl, hup'⟩ := hfirst
    · obtain hrec' | ⟨c, hc, hcpid, hcl⟩ := hacc
      · exact absurd hrec' hrec
      · have hclaimed := claimedIn_first.mpr ⟨c, hc, hcpid, hcpid ▸ hrec, hcl⟩
        rw [← hcpid] at hclaimed ⊢
        simp [entryFor_of_mem honce hc, hclaimed]
    · rw [← hpid, entryFor_of_mem honce hq]
      change (if _ then _ else _) ≠ none
      split_ifs
      · exact Option.some_ne_none _
      · exact ih m q a (by omega) hup' hacc

/-- The walk finds none exactly where there is none. -/
theorem anchorOf_eq_none_iff (honce : (found.map Process.pid).Nodup) :
    anchorOf r found p = none ↔ ¬HangsOff r found p := by
  constructor
  · rintro h ⟨n, a, hn, hup, hacc⟩
    exact walk_of_ancestor honce walkMax n p a hn hup hacc h
  · intro h
    by_contra hne
    obtain ⟨a, ha⟩ := Option.ne_none_iff_exists'.mp hne
    obtain ⟨n, hn, hup, hacc⟩ := ancestor_of_walk walkMax p a ha
    exact h ⟨n, a, hn, hup, hacc⟩

/-! ## The second pass -/

def settleFrom (r : Record) (found : List Process) : List Finding → List Finding → List Finding
  | done, [] => done
  | done, f :: todo => settleFrom r found (done ++ [settle r found (done ++ f :: todo) f]) todo

theorem foldl_reconsider : ∀ todo done : List Finding,
    (List.range' done.length todo.length).foldl (reconsider r found) (done ++ todo) =
      settleFrom r found done todo := by
  intro todo
  induction todo with
  | nil => intro done; simp [settleFrom]
  | cons f todo ih =>
    intro done
    have hstep : reconsider r found (done ++ f :: todo) done.length =
        done ++ [settle r found (done ++ f :: todo) f] ++ todo := by
      simp [reconsider]
    rw [List.length_cons, List.range'_succ, List.foldl_cons, hstep, settleFrom, ← ih]
    simp

theorem classify_eq {outMax : ℕ} (hlen : found.length ≤ outMax) :
    classify r found outMax = settleFrom r found [] (found.map (firstFinding r)) := by
  rw [← foldl_reconsider, classify, List.take_of_length_le hlen, List.range_eq_range']
  rfl

theorem subset_settleFrom : ∀ todo done : List Finding, done ⊆ settleFrom r found done todo := by
  intro todo
  induction todo with
  | nil => exact fun done => List.Subset.refl done
  | cons f todo ih =>
    intro done x hx
    exact ih _ (List.mem_append_left _ hx)

/-- What a process is found to be in the end. -/
def finalFinding (r : Record) (found : List Process) (p : Process) : Finding :=
  if p.pid ∈ r.pids then firstFinding r p
  else match anchorOf r found p with
    | some anchor => { firstFinding r p with verdict := .helper, anchor }
    | none => firstFinding r p

theorem settle_eq {out : List Finding}
    (hwalk : walk r found (claimedIn out) walkMax p.parent = anchorOf r found p) :
    settle r found out (firstFinding r p) = finalFinding r found p := by
  unfold settle finalFinding
  have hverdict : ((firstFinding r p).verdict = .unaccounted ∨
      (firstFinding r p).verdict = .claimed) ↔ p.pid ∉ r.pids := by
    unfold firstFinding
    split_ifs <;> simp_all
  by_cases hrec : p.pid ∈ r.pids
  · rw [if_neg (by rw [hverdict]; exact not_not_intro hrec), if_pos hrec]
  · rw [if_pos (hverdict.mpr hrec), if_neg hrec]
    change (match walk r found (claimedIn out) walkMax p.parent with
      | some anchor => _ | none => _) = _
    rw [hwalk]

theorem finalFinding_mem_classify {rest : List Process} {outMax : ℕ}
    (hlen : (p :: rest).length ≤ outMax) :
    finalFinding r (p :: rest) p ∈ classify r (p :: rest) outMax := by
  rw [classify_eq hlen, List.map_cons, settleFrom]
  refine subset_settleFrom _ _ ?_
  have hsettle : settle r (p :: rest) ((p :: rest).map (firstFinding r)) (firstFinding r p) =
      finalFinding r (p :: rest) p := settle_eq rfl
  exact List.mem_singleton.mpr hsettle.symm

theorem finalFinding_process (p : Process) : (finalFinding r found p).process = p := by
  unfold finalFinding
  split_ifs
  · rfl
  · split <;> rfl

/-- A helper is what is not recorded and has an anchor. -/
theorem finalFinding_helper (h : (finalFinding r found p).verdict = .helper) :
    p.pid ∉ r.pids ∧ anchorOf r found p = some (finalFinding r found p).anchor := by
  have hfirst : (firstFinding r p).verdict ≠ .helper := by
    unfold firstFinding
    split_ifs <;> simp
  unfold finalFinding at h ⊢
  split_ifs at h ⊢ with hrec
  · exact absurd h hfirst
  · cases hanchor : anchorOf r found p with
    | some a => exact ⟨hrec, rfl⟩
    | none => rw [hanchor] at h; exact absurd h hfirst

theorem finalFinding_of_anchor {a : ℤ} (hrec : p.pid ∉ r.pids) (h : anchorOf r found p = some a) :
    finalFinding r found p = ⟨p, .helper, a⟩ := by
  simp [finalFinding, hrec, h, firstFinding]

/-- What stays unaccounted for : not recorded, not claimed and without an anchor. -/
theorem finalFinding_unaccounted :
    (finalFinding r found p).verdict = .unaccounted ↔
      p.pid ∉ r.pids ∧ isClaimed r p = false ∧ anchorOf r found p = none := by
  unfold finalFinding firstFinding
  split_ifs with hrec hclaimed
  · simp [hrec]
  · cases h : anchorOf r found p <;> simp [hrec, hclaimed]
  · cases h : anchorOf r found p <;> simp [hrec, hclaimed]

theorem claimed_of_final (h : (finalFinding r found p).verdict = .claimed) :
    (firstFinding r p).verdict = .claimed := by
  unfold finalFinding at h
  split_ifs at h
  · exact h
  · split at h
    · cases h
    · exact h

theorem walk_eq_anchorOf (hset : Settled r found) {done todo : List Process}
    (hsplit : done ++ todo = found) (hp : p ∈ found) (hrec : p.pid ∉ r.pids) :
    walk r found (claimedIn (done.map (finalFinding r found) ++ todo.map (firstFinding r)))
      walkMax p.parent = anchorOf r found p := by
  refine walk_stable ?_ _ _ ?_
  · intro pid h
    subst hsplit
    simp only [claimedIn, List.any_append, List.any_map, List.map_append, Bool.or_eq_true,
      List.any_eq_true, Function.comp_apply, Bool.and_eq_true,
      decide_eq_true_eq] at h ⊢
    obtain ⟨q, hq, hpid, hclaimed⟩ | h := h
    · refine .inl ⟨q, hq, ?_, claimed_of_final hclaimed⟩
      rwa [finalFinding_process] at hpid
    · exact .inr h
  · intro a ha hnot
    obtain ⟨-, -, -, hrecorded | ⟨q, hq, rfl, hclaimed⟩⟩ := ancestor_of_walk _ p a ha
    · exact absurd hrecorded hnot
    have hfirst : (firstFinding r q).verdict = .claimed := by simp [firstFinding, hnot, hclaimed]
    have hfinal : finalFinding r found q = firstFinding r q := by
      have := hset p hp hrec q hq hnot ha
      simp [finalFinding, hnot, this]
    have hmem : firstFinding r q ∈
        done.map (finalFinding r found) ++ todo.map (firstFinding r) := by
      rw [← hsplit, List.mem_append] at hq
      obtain hq | hq := hq
      · exact List.mem_append_left _ (hfinal ▸ List.mem_map_of_mem hq)
      · exact List.mem_append_right _ (List.mem_map_of_mem hq)
    exact List.any_eq_true.mpr ⟨_, hmem, by simp [hfirst, firstFinding_process]⟩

theorem settleFrom_of_settled (hset : Settled r found) : ∀ todo done : List Process,
    done ++ todo = found →
    settleFrom r found (done.map (finalFinding r found)) (todo.map (firstFinding r)) =
      found.map (finalFinding r found) := by
  intro todo
  induction todo with
  | nil => rintro done rfl; simp [settleFrom]
  | cons p todo ih =>
    intro done hsplit
    have hp : p ∈ found := by simp [← hsplit]
    have hsettle : settle r found
        (done.map (finalFinding r found) ++ (p :: todo).map (firstFinding r)) (firstFinding r p) =
        finalFinding r found p := by
      by_cases hrec : p.pid ∈ r.pids
      · simp [settle, finalFinding, firstFinding, hrec]
      · exact settle_eq (walk_eq_anchorOf hset hsplit hp hrec)
    rw [List.map_cons] at hsettle ⊢
    rw [settleFrom, hsettle, ← ih (done ++ [p]) (by simpa using hsplit)]
    simp

theorem classify_of_settled (hset : Settled r found) {outMax : ℕ} (hlen : found.length ≤ outMax) :
    classify r found outMax = found.map (finalFinding r found) := by
  rw [classify_eq hlen]
  exact settleFrom_of_settled hset found [] rfl

end

/-! ## The order of the list -/

section

variable {r : Record} {g : ControlGroup}

theorem settled_perm {l : List Process} (hl : l.Perm g.found) (h : Settled r g.found) :
    Settled r l := by
  unfold Settled at h ⊢
  simpa only [anchorOf_perm hl g.once, hl.mem_iff] using h

theorem finalFinding_perm {l : List Process} (hl : l.Perm g.found) :
    finalFinding r l = finalFinding r g.found := by
  funext p
  unfold finalFinding
  rw [anchorOf_perm hl g.once]

/-- Whatever the order, the findings are those of each process. -/
theorem mem_classify {outMax : ℕ} (hset : Settled r g.found) {l : List Process}
    (hl : l.Perm g.found) (hlen : g.found.length ≤ outMax) {f : Finding} :
    f ∈ classify r l outMax ↔ ∃ p ∈ g.found, finalFinding r g.found p = f := by
  rw [classify_of_settled (settled_perm hl hset) (hl.length_eq ▸ hlen), finalFinding_perm hl,
    List.mem_map]
  simp only [hl.mem_iff]

/-- The finding of each process is come by in some order. -/
theorem finalFinding_mem_first {p : Process} (hp : p ∈ g.found) {outMax : ℕ}
    (hlen : g.found.length ≤ outMax) :
    ∃ l : List Process, l.Perm g.found ∧ finalFinding r g.found p ∈ classify r l outMax := by
  have hl := (List.perm_cons_erase hp).symm
  refine ⟨_, hl, ?_⟩
  rw [← finalFinding_perm hl]
  exact finalFinding_mem_classify (hl.length_eq ▸ hlen)

/-- The findings do not depend on the order exactly where no process is anchored at one that hangs
off something itself. -/
theorem orderFree_iff (r : Record) (g : ControlGroup) (outMax : ℕ)
    (hlen : g.found.length ≤ outMax) : OrderFree r g outMax ↔ Settled r g.found := by
  constructor
  · -- both are helpers in the order that lists one of them first
    intro h p hp hprec q hq hqrec hanchor
    cases hnext : anchorOf r g.found q with
    | none => rfl
    | some d =>
      obtain ⟨l, hl, hpl⟩ := finalFinding_mem_first (r := r) hp hlen
      obtain ⟨l', hl', hql⟩ := finalFinding_mem_first (r := r) hq hlen
      rw [finalFinding_of_anchor hprec hanchor] at hpl
      rw [finalFinding_of_anchor hqrec hnext, h.same l' l hl' hl] at hql
      exact absurd rfl (h.anchored l hl _ hpl rfl _ hql rfl)
  · intro hset
    refine ⟨?_, ?_, ?_⟩
    · intro l l' hl hl' f
      rw [mem_classify hset hl hlen, mem_classify hset hl' hlen]
    · intro l hl f hf
      obtain ⟨p, -, rfl⟩ := (mem_classify hset hl hlen).mp hf
      rw [finalFinding_unaccounted, finalFinding_process, anchorOf_eq_none_iff g.once]
    · intro l hl f hf hhelper f' hf' hpid hhelper'
      obtain ⟨p, hp, rfl⟩ := (mem_classify hset hl hlen).mp hf
      obtain ⟨q, hq, rfl⟩ := (mem_classify hset hl hlen).mp hf'
      obtain ⟨hprec, hanchor⟩ := finalFinding_helper hhelper
      obtain ⟨hqrec, hnext⟩ := finalFinding_helper hhelper'
      rw [finalFinding_process] at hpid
      rw [← hpid] at hanchor
      rw [hset p hp hprec q hq hqrec hanchor] at hnext
      cases hnext

end

/-! ## A client whose helpers carry its interface -/

/-- A client of DHCP and two of its helpers, one under the other. -/
def client : Process where
  pid := 100
  parent := 1
  command := asciis "dhcpcd: wlan0 [ip4]"

def proxy : Process where
  pid := 101
  parent := 100
  command := asciis "dhcpcd: [privileged proxy] wlan0 [ip4]"

def filter : Process where
  pid := 102
  parent := 101
  command := asciis "dhcpcd: [BPF ARP] wlan0"

/-- The record claims a backend on `wlan0`, and has no pid. -/
def claimsWlan : Record where
  pids := []
  claimed := [some (asciis "wlan0")]

/-- The filter is listed first, and is anchored at the proxy, which is a helper of the client. -/
theorem filter_at_proxy :
    ¬OrderFree claimsWlan ⟨[filter, proxy, client], by decide⟩ 3 := by
  intro h
  exact h.anchored _ (.refl _) ⟨filter, .helper, 101⟩ (by decide) rfl
    ⟨proxy, .helper, 100⟩ (by decide) rfl rfl

/-- A client and one helper of it are the same in both orders. -/
theorem proxy_order_free : OrderFree claimsWlan ⟨[proxy, client], by decide⟩ 2 :=
  (orderFree_iff claimsWlan ⟨[proxy, client], by decide⟩ 2 (by decide)).mpr
    (by unfold Settled; decide)

end Netcfgd.Leftover
