import Netcfgd.OwnedFile

/-!
# Updates of the ownership record

`ncfg_owned_update` : the record is read, changed and written while `owned.lock` is held, by any
number of processes. An update is taken apart at the calls another process can come between, and a
process takes the lock only while nobody has it. What a run leaves in the file is the changes that
were written, in the order the lock was taken (`composed_of_reaches`), where each record written is
one the tables keep; `owned_record_survives_iff` is that with what one file keeps of a record.
-/

namespace Netcfgd.Model

open Json

variable {π : Type*}

/-- What a change makes of a record, nothing where it abandons the update. -/
abbrev Change := OwnedRecord → Option OwnedRows

/-- Where an update has got to under the lock. -/
inductive Stage
  | taken
  | has (r : OwnedRecord)
  | finished

/-- The file, who has the lock, and the updates that took it, in order : the change of an update is
there once it was written. -/
structure Updates (π : Type*) where
  file : Option Bytes
  lock : Option (π × Stage) := none
  updates : List (π × Option Change) := []

inductive UpdateEvent (π : Type*)
  /-- `ncfg_lock_take`, which waits for its turn. -/
  | take (p : π)
  | read (p : π)
  /-- The change, and the write of what it made, which is done or not. -/
  | write (p : π) (change : Change) (done : Bool)
  | release (p : π)

def wrote (p : π) (change : Change) (updates : List (π × Option Change)) :
    List (π × Option Change) :=
  updates.dropLast ++ [(p, some change)]

/-- One step of a process, in a boot, nothing where it cannot be taken. -/
def updateStep [DecidableEq π] (now : Option CText) (s : Updates π) :
    UpdateEvent π → Option (Updates π)
  | .take p =>
    match s.lock with
    | none => some { s with lock := some (p, .taken), updates := s.updates ++ [(p, none)] }
    | some _ => none
  | .read p =>
    match s.lock with
    | some (q, .taken) =>
      if q = p then some { s with lock := some (p, .has (ownedRead now s.file)) } else none
    | _ => none
  | .write p change done =>
    match s.lock with
    | some (q, .has r) =>
      if q = p then
        match (change r).bind (ownedText now) with
        | some text =>
          if done then
            some ⟨some text, some (p, .finished), wrote p change s.updates⟩
          else some { s with lock := some (p, .finished) }
        | none => some { s with lock := some (p, .finished) }
      else none
    | _ => none
  | .release p =>
    match s.lock with
    | some (q, _) => if q = p then some { s with lock := none } else none
    | none => none

/-- The updates one after the other, on one record. -/
def composed (now : Option CText) (start : OwnedRecord) (updates : List (π × Option Change)) :
    OwnedRecord :=
  updates.foldl (fun r u =>
    match u.2.bind fun change => change r with
    | some rows => stamped now rows
    | none => r) start

/-- A step that writes only rows that the tables keep, in a text within the limit. -/
def WritesKept (now : Option CText) (s : Updates π) : UpdateEvent π → Prop
  | .write _ change done => ∀ q r rows, s.lock = some (q, .has r) → change r = some rows →
      done = true → (ownedText now rows).isSome →
        rows.Keeps ∧ (ownedLaid now rows).length ≤ stateFileMax
  | _ => True

/-- The states of a run, from a file that nobody is updating. -/
inductive Reaches [DecidableEq π] (now : Option CText) (file : Option Bytes) : Updates π → Prop
  | start : Reaches now file { file }
  | step {s s' : Updates π} {event : UpdateEvent π} : Reaches now file s →
      WritesKept now s event → updateStep now s event = some s' → Reaches now file s'

/-- The file says what the changes made, who has the lock has read that, and an update that has
not written yet is the last. -/
structure Serial (now : Option CText) (file : Option Bytes) (s : Updates π) : Prop where
  file : ownedRead now s.file = composed now (ownedRead now file) s.updates
  read : ∀ p r, s.lock = some (p, .has r) → r = ownedRead now s.file
  last : ∀ p stage, s.lock = some (p, stage) → stage ≠ .finished →
    ∃ before, s.updates = before ++ [(p, none)]

theorem not_otherBoot (now : Option CText) : ¬OtherBoot now now := by
  rintro ⟨boot, boot', rfl, -, heq, hdiffer⟩
  exact hdiffer (Option.some.inj heq).symm

theorem composed_snoc (now : Option CText) (start : OwnedRecord) (before : List (π × Option Change))
    (u : π × Option Change) : composed now start (before ++ [u]) =
      match u.2.bind fun change => change (composed now start before) with
      | some rows => stamped now rows
      | none => composed now start before := by
  rw [composed, List.foldl_append]
  rfl

section

variable {now : Option CText} {file : Option Bytes} {s s' : Updates π}

theorem serial_write {p : π} {change : Change} {r : OwnedRecord} {text : Bytes}
    (hs : Serial now file s) (hlock : s.lock = some (p, .has r))
    (htext : (change r).bind (ownedText now) = some text)
    (hkept : WritesKept now s (.write p change true)) :
    Serial now file ⟨some text, some (p, .finished), wrote p change s.updates⟩ := by
  obtain ⟨rows, hrows, htext⟩ := Option.bind_eq_some_iff.1 htext
  obtain ⟨hkeeps, hsize⟩ := hkept p r rows hlock hrows rfl (by rw [htext]; rfl)
  obtain ⟨before, hbefore⟩ := hs.last p _ hlock nofun
  have hdone := done_of_ownedText htext
  rw [ownedText_of_done hdone hsize] at htext
  obtain rfl := Option.some.inj htext
  have hfile : ownedRead now s.file = composed now (ownedRead now file) before := by
    rw [hs.file, hbefore, composed_snoc]
    rfl
  have hchange : change (composed now (ownedRead now file) before) = some rows := by
    rw [← hfile, ← hs.read p r hlock]
    exact hrows
  refine ⟨?_, nofun, fun q stage hlock hstage => ?_⟩
  · rw [ownedRead_stamped hdone hsize (not_otherBoot now) hkeeps, wrote, hbefore,
      List.dropLast_concat, composed_snoc]
    simp only [Option.bind_some, hchange]
  · cases hlock
    exact absurd rfl hstage

theorem serial_finished {p : π} (hs : Serial now file s) :
    Serial now file { s with lock := some (p, .finished) } := by
  refine ⟨hs.file, nofun, fun q stage hlock hstage => ?_⟩
  cases hlock
  exact absurd rfl hstage

variable [DecidableEq π]

theorem serial_step {event : UpdateEvent π} (hs : Serial now file s)
    (hkept : WritesKept now s event) (h : updateStep now s event = some s') :
    Serial now file s' := by
  cases event with
  | take p =>
    simp only [updateStep] at h
    cases hlock : s.lock with
    | some holder =>
      rw [hlock] at h
      cases h
    | none =>
      rw [hlock] at h
      cases h
      refine ⟨?_, nofun, fun q stage hlock _ => ?_⟩
      · rw [composed_snoc]
        exact hs.file
      · cases hlock
        exact ⟨s.updates, rfl⟩
  | read p =>
    simp only [updateStep] at h
    split at h
    · rename_i q hlock
      split_ifs at h with hsame
      cases h
      refine ⟨hs.file, fun q' r hlock' => ?_, fun q' stage hlock' _ => ?_⟩
      · cases hlock'
        rfl
      · cases hlock'
        exact hsame ▸ hs.last q _ hlock nofun
    · cases h
  | write p change done =>
    simp only [updateStep] at h
    split at h
    · rename_i q r hlock
      split_ifs at h with hsame hdone
      · subst hsame hdone
        split at h
        · rename_i text htext
          cases h
          exact serial_write hs hlock htext hkept
        · cases h
          exact serial_finished hs
      · -- whatever was made, it is not there
        have hfinished : some { s with lock := some (p, .finished) } = some s' := by
          rw [← h]
          split <;> rfl
        cases hfinished
        exact serial_finished hs
    · cases h
  | release p =>
    simp only [updateStep] at h
    split at h
    · split_ifs at h
      cases h
      exact ⟨hs.file, nofun, nofun⟩
    · cases h

/-- The run lemma : any order of writers leaves the record of their updates, one by one. -/
theorem composed_of_reaches (h : Reaches now file s) :
    ownedRead now s.file = composed now (ownedRead now file) s.updates := by
  have hserial : Serial now file s := by
    induction h with
    | start => exact ⟨rfl, nofun, nofun⟩
    | step _ hkept hstep ih => exact serial_step ih hkept hstep
  exact hserial.file

end

/-! ## What survives -/

/-- What one write leaves, in the boot it is made in and in another. -/
def SurvivesWrite (now now' : Option CText) (rows : OwnedRows) (text : Bytes) : Prop :=
  (OtherBoot now now' → ownedRead now' (some text) = {}) ∧
    (¬OtherBoot now now' → (ownedRead now' (some text)).rows = rows)

/-- A written record survives exactly where the boot is another or the rows are kept. -/
theorem survivesWrite_iff {now now' : Option CText} {rows : OwnedRows} {text : Bytes}
    (htext : ownedText now rows = some text) (hsize : (ownedLaid now rows).length ≤ stateFileMax) :
    SurvivesWrite now now' rows text ↔ OtherBoot now now' ∨ rows.Keeps := by
  have hdone := done_of_ownedText htext
  rw [ownedText_of_done hdone hsize] at htext
  obtain rfl := Option.some.inj htext
  by_cases hother : OtherBoot now now'
  · refine iff_of_true ⟨fun _ => ?_, fun h => absurd hother h⟩ (.inl hother)
    exact ownedRead_otherBoot hdone hsize hother
  · rw [SurvivesWrite, or_iff_right hother, ← rows_ownedRead_iff hdone hsize hother]
    exact ⟨fun h => h.2 hother, fun h => ⟨fun h' => absurd h' hother, fun _ => h⟩⟩

/-- **What survives of the ownership record** : a record that is written within the limit is read
back in the same boot exactly where the tables keep its rows, and is empty in another; of a file of
any text the record is empty or all that the text says, exactly where the text is clear; and any
interleaving of updates leaves what the changes written make one after the other, in the order the
lock was taken, where what they write is kept. -/
theorem owned_record_survives_iff (π : Type*) [DecidableEq π] :
    (∀ now now' rows text, ownedText now rows = some text →
      (ownedLaid now rows).length ≤ stateFileMax →
        (SurvivesWrite now now' rows text ↔ OtherBoot now now' ∨ rows.Keeps)) ∧
    (∀ now file, ownedRead now file ≠ {} → ∃ text, file = some text ∧
      (SaysOwned text (ownedRead now file) ↔ ClearOwned text)) ∧
    ∀ now file (s : Updates π), Reaches now file s →
      ownedRead now s.file = composed now (ownedRead now file) s.updates := by
  refine ⟨fun now now' rows text => survivesWrite_iff, fun now file hne => ?_,
    fun now file s => composed_of_reaches⟩
  obtain ⟨text, hfile, hread⟩ := text_of_ownedRead hne
  exact ⟨text, hfile, saysOwned_iff hread⟩

theorem done_of_room {now : Option CText} {rows : OwnedRows}
    (hsound : owned.Sound (stamped now rows))
    (hfits : Json.Fits maxDepth (owned.script (stamped now rows)).value)
    (hroom : (render compact 0 (owned.script (stamped now rows)).value).length ≤ stateBuildMax) :
    (ownedBuilt now rows).done = true := by
  rw [ownedBuilt, owned.calls_script hsound]
  exact (Writer.done_of_fits hfits hroom).1

/-- A bridge netcfgd made, its address, a DHCP client that runs there with a metric and answers,
and one start of it that did not last. -/
def bridged : OwnedRows where
  createdLinks := [cText (asciis "br0")]
  addresses := [⟨cText (asciis "br0"), cText (asciis "10.0.0.2/24"), 0⟩]
  backends := [⟨0, some (cText (asciis "br0")), true, some true, none, some 100, none, none, none,
    some false, none, [cText (asciis "fd00::/64")], some (cText (asciis "10.0.0.0/24")), [], []⟩]
  backendRestarts := [⟨0, cText (asciis "br0"), 1⟩]

section

variable {β : Type} {k : Kind β} {name : String} {nullable : Bool}

theorem keeps_stated {must : Bool} {b : β} (h : k.Keeps b) :
    (k.optional name must nullable).Keeps (some b) :=
  ⟨fun _ => rfl, fun _ hb => Option.some.inj hb ▸ h⟩

theorem keeps_unstated : (k.optional name false nullable).Keeps none :=
  ⟨fun h => Bool.noConfusion h, fun _ h => absurd h (Option.some_ne_none _).symm⟩

theorem keeps_single {b : β} (h : k.Keeps b) : (k.allOf name).Keeps [b] :=
  .inr fun _ hb => List.mem_singleton.1 hb ▸ h

end

theorem keeps_bridged : bridged.Keeps := by
  have haddress : objectRow.Keeps ⟨cText (asciis "br0"), cText (asciis "10.0.0.2/24"), 0⟩ :=
    ⟨trivial, trivial, rfl, trivial⟩
  have hbackend : ∀ b ∈ bridged.backends, backend.Keeps b := by
    intro b hb
    obtain rfl := List.mem_singleton.1 hb
    refine ⟨rfl, keeps_stated trivial, trivial, keeps_stated trivial, keeps_unstated,
      keeps_stated ⟨by decide, by decide⟩, keeps_unstated, keeps_unstated, keeps_unstated,
      keeps_stated trivial, keeps_unstated, .inr fun _ _ => trivial, keeps_stated trivial,
      .inr fun _ h => absurd h List.not_mem_nil, .inr fun _ h => absurd h List.not_mem_nil, trivial⟩
  have hrestart : restartRow.Keeps ⟨0, cText (asciis "br0"), 1⟩ :=
    ⟨rfl, by decide, by decide⟩
  exact ⟨keeps_unstated, keeps_single trivial, keeps_single haddress, keeps_nil ..,
    .inr hbackend, keeps_single hrestart, keeps_nil .., keeps_nil .., keeps_nil .., keeps_nil ..,
    keeps_nil .., keeps_nil .., keeps_nil .., trivial⟩

/-- A record with a row of each of four lists is read back whole in the same boot. -/
theorem bridged_record_survives : ∃ text,
    ownedText (some (cText (asciis "b1"))) bridged = some text ∧
      SurvivesWrite (some (cText (asciis "b1"))) (some (cText (asciis "b1"))) bridged text := by
  have hsound : owned.Sound (stamped (some (cText (asciis "b1"))) bridged) :=
    owned.sound_of_keeps (keeps_stamped.2 keeps_bridged)
  have hdone := done_of_room hsound (by decide +kernel) (by decide +kernel)
  have hsize : (ownedLaid (some (cText (asciis "b1"))) bridged).length ≤ stateFileMax := by
    decide +kernel
  have htext := ownedText_of_done hdone hsize
  exact ⟨_, htext, ((owned_record_survives_iff Unit).1 _ _ bridged _ htext hsize).2
    (.inr keeps_bridged)⟩

/-- A DHCP server on `eth0`, with a lease that ends. -/
def leased : OwnedRows where
  backends := [⟨10, some (cText (asciis "eth0")), true, none, none, none, none, none, none, none,
    none, [], none, [⟨some (cText (asciis "10.0.0.9")), none, none, 1700000000⟩], []⟩]

section

variable {β : Type} {k : Kind β} {name : String}

theorem sound_nil : (k.allOf name).Sound [] := fun _ h => nomatch h

theorem sound_none {must nullable : Bool} : (k.optional name must nullable).Sound none :=
  fun _ h => by cases h

end

theorem sound_lease (l : Lease) : lease.Sound l :=
  ⟨fun _ _ => trivial, fun _ _ => trivial, fun _ _ => trivial, trivial, trivial⟩

theorem sound_leased : owned.Sound (stamped none leased) := by
  have hbackend : ∀ b ∈ leased.backends, backend.Sound b := by
    intro b hb
    obtain rfl := List.mem_singleton.1 hb
    exact ⟨rfl, fun _ _ => trivial, trivial, fun _ _ => trivial, sound_none, fun _ _ => trivial,
      sound_none, fun _ _ => trivial, fun _ _ => trivial, fun _ _ => trivial,
      fun _ _ => trivial, fun _ _ => trivial, fun _ _ => trivial, fun l _ => sound_lease l,
      fun _ h => absurd h List.not_mem_nil, trivial⟩
  exact ⟨fun _ _ => trivial, sound_nil, sound_nil, sound_nil, hbackend, sound_nil,
    sound_nil, sound_nil, sound_nil, sound_nil, sound_nil, sound_nil,
    sound_nil, trivial⟩

/-- `observed_lease_fields` states no bounds, so the end of a lease is read between 0 and 0 : the
record is written, and read back as nothing at all. -/
theorem lease_loses_record : ∃ text, ownedText none leased = some text ∧
    (ownedLaid none leased).length ≤ stateFileMax ∧ ¬SurvivesWrite none none leased text := by
  have hdone := done_of_room sound_leased (by decide +kernel) (by decide +kernel)
  have hsize : (ownedLaid none leased).length ≤ stateFileMax := by decide +kernel
  have htext := ownedText_of_done hdone hsize
  refine ⟨_, htext, hsize, fun h => ?_⟩
  rcases (survivesWrite_iff htext hsize).1 h with ⟨_, _, hnow, -⟩ | hkeeps
  · cases hnow
  · obtain ⟨-, -, -, -, hbackends, -⟩ := hkeeps
    have hbackend := hbackends.resolve_left nofun _ List.mem_cons_self
    obtain ⟨-, -, -, -, -, -, -, -, -, -, -, -, -, hleases, -⟩ := hbackend
    have hlease := hleases.resolve_left nofun _ List.mem_cons_self
    obtain ⟨-, -, -, hexpires, -⟩ := hlease
    exact absurd (hexpires.resolve_left nofun).2 (by decide)

end Netcfgd.Model
