import Mathlib.Logic.Function.Basic
import Netcfgd.HostFile

/-!
# Putting a drop-in on disk and taking it away

A drop-in is written, or taken away, before it is known that the configuration still compiles, and
the name is put back as it was when it doesn't. So both are meant to be all or nothing
(`InstallKeeps`, `RemoveKeeps`), whatever the host answers to the calls made on that one name.

They are for a file that can be read, in a directory that takes a new entry. Where it takes none the
file is truncated in place, and a write that fails there is not undone (`Torn`); a name that is a
link comes back as a file of its own (`Unlinked`); and a file that cannot be read is not removed,
which is told as success (`Unseen`). These are all the exceptions (`drop_ins_all_or_nothing_iff`).
-/

namespace Netcfgd.Host

open Netcfgd.Json (ascii asciis)

/-- `NCFG_CONFIG_FILE_MAX`. -/
def configFileMax : ℕ := 16 * 1024 * 1024

/-! ## What a call finds and what it returns -/

/-- The outcomes of the calls on the one name. -/
structure Outcomes where
  /-- `lstat` fails although something is there. -/
  statFault : Bool
  /-- `open` or `read` fails although something is there. -/
  readFault : Bool
  /-- `ncfg_host_make_directory` of `conf.d`. -/
  directory : Bool
  write : Attempt
  /-- The `unlink` that removes the file. -/
  unlinked : Bool
  /-- A failing `unlink` says `EACCES`, `EPERM` or `EROFS`. -/
  unlinkDenied : Bool
  /-- The write of the restore, and its `unlink`. -/
  restore : Attempt
  restoreUnlinked : Bool
  /-- What `strerror` says of the call that fails. -/
  why : Bytes
  deriving DecidableEq, Repr

/-- Why a call is refused, each with what its sentence says. -/
inductive Refusal
  | unusable (name why : Bytes)
  | exists (path : Bytes)
  | unread (path why : Bytes)
  | directory (path why : Bytes)
  | unwritten (path why : Bytes)
  | unremoved (path why : Bytes)
  | unloaded (configDir said : Bytes)
  | breaksInstall (said : Bytes)
  | breaksRemove (said : Bytes)
  deriving DecidableEq, Repr

/-- What a call returns and the files it leaves. `restoring` is for the reader : what the restore's
own call returned, where one was made, which the code does not look at. -/
structure Returned (α : Type) where
  disk : Disk
  result : Except Refusal α
  denied : Bool := false
  restoring : Option Bool := none

section

variable {σ δ : Type*}
  -- `ncfg_config_load_with_profile` and `ncfg_config_compile_for_reading`, on the files as they are
  (load : Disk → Except Bytes σ) (compile : σ → Except Bytes δ)

/-- The whole configuration, with the selected profile, compiles. -/
def Compiles (disk : Disk) : Prop := ∃ sources, load disk = .ok sources ∧
  ∃ document, compile sources = .ok document

/-- The check that follows a write, with the refusal that `broken` makes of what the compiler
says. -/
def verify (configDir : Bytes) (broken : Bytes → Refusal) (disk : Disk) : Except Refusal Unit :=
  match load disk with
  | .error said => .error (.unloaded configDir said)
  | .ok sources =>
    match compile sources with
    | .error said => .error (broken said)
    | .ok _ => .ok ()

/-! ## The two calls -/

/-- `restore` : what it leaves at the name, and what its call returned. -/
def restore (o : Outcomes) (previous : Option Bytes) (e : Entry) : Entry × Bool :=
  match previous with
  | some bytes =>
    let written := configWriteAtomically o.restore bytes e
    (written.entry, written.ok)
  | none => if o.restoreUnlinked then (.absent, true) else (e, false)

/-- `read_previous` : a file that is not there is none. -/
def readPrevious (o : Outcomes) (e : Entry) : Except Unread (Option Bytes) :=
  match readFile configFileMax o.readFault e with
  | .ok bytes => .ok (some bytes)
  | .error .absent => .ok none
  | .error why => .error why

/-- The end of both calls : what is written is kept if the configuration compiles. -/
def keepOrRestore {α : Type} (configDir path : Bytes) (broken : Bytes → Refusal) (o : Outcomes)
    (previous : Option Bytes) (kept : α) (denied : Bool) (disk : Disk) : Returned α :=
  match verify load compile configDir broken disk with
  | .ok () => ⟨disk, .ok kept, denied, none⟩
  | .error refusal =>
    let (entry, ok) := restore o previous (disk path)
    ⟨Function.update disk path entry, .error refusal, denied, some ok⟩

/-- `ncfg_config_install_drop_in`, which returns the path. -/
def installDropIn (configDir name text : Bytes) (replace : Bool) (o : Outcomes) (disk : Disk) :
    Returned Bytes :=
  let path := dropInPath configDir name
  match secretNameWhy name with
  | some why => { disk, result := .error (.unusable name why) }
  | none =>
    if disk path ≠ .absent ∧ o.statFault = false ∧ replace = false then
      { disk, result := .error (.exists path) }
    else
      match readPrevious o (disk path) with
      | .error _ => { disk, result := .error (.unread path o.why) }
      | .ok previous =>
        if o.directory then
          let written := configWriteAtomically o.write text (disk path)
          let disk := Function.update disk path written.entry
          if written.ok then
            keepOrRestore load compile configDir path .breaksInstall o previous path
              written.denied disk
          else { disk, result := .error (.unwritten path o.why), denied := written.denied }
        else { disk, result := .error (.directory (join configDir (asciis "conf.d")) o.why) }

/-- `ncfg_config_remove_drop_in`, which returns `removed`. -/
def removeDropIn (configDir name : Bytes) (o : Outcomes) (disk : Disk) : Returned Bool :=
  let path := dropInPath configDir name
  match secretNameWhy name with
  | some why => { disk, result := .error (.unusable name why) }
  | none =>
    match readFile configFileMax o.readFault (disk path) with
    | .error _ => { disk, result := .ok false }
    | .ok previous =>
      if o.unlinked then
        keepOrRestore load compile configDir path .breaksRemove o (some previous) true false
          (Function.update disk path .absent)
      else { disk, result := .error (.unremoved path o.why), denied := o.unlinkDenied }

/-! ## All or nothing -/

/-- An install that succeeds has the text there and a configuration that compiles; one that is
refused leaves the file as it was, unless the restoring call failed. -/
def InstallKeeps (path text : Bytes) (before : Disk) (r : Returned Bytes) : Prop :=
  match r.result with
  | .ok told => told = path ∧ r.disk path = .regular text ∧ Compiles load compile r.disk
  | .error _ => r.restoring ≠ some false → r.disk path = before path

/-- A removal that succeeds leaves nothing at the name and a configuration that compiles, or found
nothing there; it says `removed` when it took a file away. One that is refused leaves the file as it
was, unless the restoring call failed. -/
def RemoveKeeps (path : Bytes) (before : Disk) (r : Returned Bool) : Prop :=
  match r.result with
  | .ok removed => (before path = .absent ∨ r.disk path = .absent ∧ Compiles load compile r.disk) ∧
      (removed = true ↔ before path ≠ .absent ∧ r.disk path = .absent)
  | .error _ => r.restoring ≠ some false → r.disk path = before path

/-! ## What the checks and the restore come to -/

variable {load compile} {configDir path name text : Bytes} {replace : Bool} {o : Outcomes}
  {before disk : Disk} {e : Entry} {previous : Option Bytes}

theorem verify_of_compiles (broken : Bytes → Refusal) (h : Compiles load compile disk) :
    verify load compile configDir broken disk = .ok () := by
  obtain ⟨sources, hload, document, hcompile⟩ := h
  simp [verify, hload, hcompile]

theorem verify_of_not_compiles (configDir : Bytes) (broken : Bytes → Refusal)
    (h : ¬Compiles load compile disk) :
    ∃ refusal, verify load compile configDir broken disk = .error refusal := by
  rcases hload : load disk with said | sources
  · exact ⟨.unloaded configDir said, by simp [verify, hload]⟩
  · rcases hcompile : compile sources with said | document
    · exact ⟨broken said, by simp [verify, hload, hcompile]⟩
    · exact absurd ⟨sources, hload, document, hcompile⟩ h

theorem readFile_eq_ok {ceiling : ℕ} {fault : Bool} {bytes : Bytes}
    (h : readFile ceiling fault e = .ok bytes) : e.contents = some bytes := by
  rcases hcontents : e.contents with _ | contents
  · simp [readFile, hcontents] at h
  · rw [readFile, hcontents] at h
    dsimp only at h
    split_ifs at h
    simp_all

theorem contents_of_readFile_absent {ceiling : ℕ} {fault : Bool}
    (h : readFile ceiling fault e = .error .absent) : e.contents = none := by
  rcases hcontents : e.contents with _ | contents
  · rfl
  · rw [readFile, hcontents] at h
    dsimp only at h
    split_ifs at h <;> cases h

theorem readPrevious_eq_ok (h : readPrevious o e = .ok previous) : previous = e.contents := by
  rw [readPrevious] at h
  split at h
  case h_1 bytes hread =>
    rw [readFile_eq_ok hread]
    cases h
    rfl
  case h_2 hread =>
    rw [contents_of_readFile_absent hread]
    cases h
    rfl
  case h_3 => cases h

def restored : Option Bytes → Entry
  | some bytes => .regular bytes
  | none => .absent

theorem restore_of_ok (h : (restore o previous e).2 = true) :
    (restore o previous e).1 = restored previous := by
  rcases previous with _ | bytes
  · rcases hunlinked : o.restoreUnlinked with _ | _ <;> simp_all [restore, restored]
  · exact configWriteAtomically_ok h

theorem restored_contents_eq_iff : restored e.contents = e ↔ ∀ target, e ≠ .link target := by
  rcases e with _ | contents | _ | target <;> simp [restored, Entry.contents]

/-! ## Where a call is not all or nothing -/

variable (load compile configDir name text replace o before)

def Attempted : Prop :=
  secretNameWhy name = none ∧
    ¬(before (dropInPath configDir name) ≠ .absent ∧ o.statFault = false ∧ replace = false) ∧
    (∃ previous, readPrevious o (before (dropInPath configDir name)) = .ok previous) ∧
    o.directory = true

/-- The directory takes no new entry, and the write in place fails with something else in the file
than it had. -/
def Torn : Prop :=
  Attempted configDir name replace o before ∧
    o.write.Tears text (before (dropInPath configDir name)) ∧
    before (dropInPath configDir name) ≠ .regular (o.write.taken text)

/-- The text takes the place of a link, breaks the configuration, and is taken back. -/
def InstallUnlinks : Prop :=
  Attempted configDir name replace o before ∧
    (∃ target, before (dropInPath configDir name) = .link target) ∧
    o.write.staging.succeeds text.length = true ∧
    ¬Compiles load compile (Function.update before (dropInPath configDir name) (.regular text)) ∧
    (restore o (before (dropInPath configDir name)).contents (.regular text)).2 = true

/-- A drop-in that is there and cannot be read. -/
def Unseen : Prop :=
  secretNameWhy name = none ∧ before (dropInPath configDir name) ≠ .absent ∧
    ∀ bytes, readFile configFileMax o.readFault (before (dropInPath configDir name)) ≠ .ok bytes

/-- A link is taken away, which breaks the configuration, and is put back. -/
def RemoveUnlinks : Prop :=
  secretNameWhy name = none ∧ o.unlinked = true ∧
    (∃ previous, before (dropInPath configDir name) = .link (some previous) ∧
      readFile configFileMax o.readFault (before (dropInPath configDir name)) = .ok previous ∧
      (restore o (some previous) .absent).2 = true) ∧
    ¬Compiles load compile (Function.update before (dropInPath configDir name) .absent)

/-! ## The exceptions are all -/

variable {load compile configDir name text replace o before}

theorem install_of_not_attempted (load : Disk → Except Bytes σ) (compile : σ → Except Bytes δ)
    (text : Bytes) (h : ¬Attempted configDir name replace o before) :
    ∃ refusal, installDropIn load compile configDir name text replace o before =
      { disk := before, result := .error refusal } := by
  unfold installDropIn
  dsimp only
  rcases hname : secretNameWhy name with _ | why
  swap
  · exact ⟨_, rfl⟩
  dsimp only
  by_cases hexists : before (dropInPath configDir name) ≠ .absent ∧ o.statFault = false ∧
      replace = false
  · rw [if_pos hexists]
    exact ⟨_, rfl⟩
  rw [if_neg hexists]
  rcases hread : readPrevious o (before (dropInPath configDir name)) with why | previous
  · exact ⟨_, rfl⟩
  dsimp only
  rw [if_neg fun hdirectory => h ⟨hname, hexists, ⟨previous, hread⟩, hdirectory⟩]
  exact ⟨_, rfl⟩

theorem install_of_attempted (h : Attempted configDir name replace o before) :
    installDropIn load compile configDir name text replace o before =
      let path := dropInPath configDir name
      let written := configWriteAtomically o.write text (before path)
      let disk := Function.update before path written.entry
      if written.ok then
        keepOrRestore load compile configDir path .breaksInstall o (before path).contents path
          written.denied disk
      else { disk, result := .error (.unwritten path o.why), denied := written.denied } := by
  obtain ⟨hname, hexists, ⟨previous, hread⟩, hdirectory⟩ := h
  unfold installDropIn
  dsimp only
  rw [hname]
  dsimp only
  rw [if_neg hexists, hread]
  dsimp only
  rw [if_pos hdirectory, readPrevious_eq_ok hread]

theorem keepOrRestore_of_not_compiles {α : Type} {broken : Bytes → Refusal} {kept : α}
    {denied : Bool} (h : ¬Compiles load compile disk) :
    ∃ refusal, keepOrRestore load compile configDir path broken o previous kept denied disk =
      ⟨Function.update disk path (restore o previous (disk path)).1, .error refusal, denied,
        some (restore o previous (disk path)).2⟩ := by
  obtain ⟨refusal, hrefusal⟩ := verify_of_not_compiles configDir broken h
  exact ⟨refusal, by rw [keepOrRestore, hrefusal]⟩

theorem restore_keeps_iff {kept : Entry} :
    (some (restore o e.contents kept).2 ≠ some false → (restore o e.contents kept).1 = e) ↔
      ¬((∃ target, e = .link target) ∧ (restore o e.contents kept).2 = true) := by
  rcases hok : (restore o e.contents kept).2 with _ | _
  · simp
  · rw [restore_of_ok hok, restored_contents_eq_iff]
    simp

/-- An install keeps the directory whole just where the put is not torn and nothing is unlinked. -/
theorem install_keeps_iff :
    InstallKeeps load compile (dropInPath configDir name) text before
        (installDropIn load compile configDir name text replace o before) ↔
      ¬Torn configDir name text replace o before ∧
        ¬InstallUnlinks load compile configDir name text replace o before := by
  by_cases hattempted : Attempted configDir name replace o before
  swap
  · obtain ⟨refusal, hrefusal⟩ := install_of_not_attempted load compile text hattempted
    rw [hrefusal]
    simp [InstallKeeps, Torn, InstallUnlinks, hattempted]
  rw [install_of_attempted hattempted]
  unfold Torn InstallUnlinks
  simp only [hattempted, true_and]
  set path := dropInPath configDir name with hpath
  rcases configWriteAtomically_cases o.write text (before path) with
    ⟨hok, htears, hentry⟩ | ⟨hok, htears, hentry⟩ | ⟨hok, htears, hentry⟩
  · simp only [hok, if_true, hentry, htears, false_and, not_false_eq_true, true_and]
    by_cases hcompiles : Compiles load compile (Function.update before path (.regular text))
    · rw [keepOrRestore, verify_of_compiles _ hcompiles]
      simp [InstallKeeps, hcompiles]
    · obtain ⟨refusal, hrefusal⟩ := keepOrRestore_of_not_compiles hcompiles
      rw [hrefusal]
      simp only [InstallKeeps, Function.update_self, restore_keeps_iff, hcompiles,
        not_false_eq_true, true_and]
      refine not_congr ⟨fun ⟨⟨target, htarget⟩, hrestored⟩ => ?_, fun h => ⟨h.1, h.2.2⟩⟩
      rw [htarget, configWriteAtomically_link] at hok
      exact ⟨⟨target, htarget⟩, hok, hrestored⟩
  · simp only [hok, hentry, InstallKeeps, htears]
    refine iff_of_true (by simp) ⟨by simp, fun ⟨⟨target, htarget⟩, hstaged, _⟩ => ?_⟩
    rw [htarget, configWriteAtomically_link, hstaged] at hok
    cases hok
  · have hstaged : o.write.staging.succeeds text.length = false := htears.1
    simp only [hok, hentry, InstallKeeps, htears, hstaged]
    simp only [Bool.false_eq_true, if_false, Function.update_self, true_and, false_and, and_false,
      not_false_eq_true, and_true, not_not, ne_eq, reduceCtorEq, forall_const]
    exact eq_comm

/-- A removal keeps it just where what is there is seen and nothing is unlinked. -/
theorem remove_keeps_iff :
    RemoveKeeps load compile (dropInPath configDir name) before
        (removeDropIn load compile configDir name o before) ↔
      ¬Unseen configDir name o before ∧ ¬RemoveUnlinks load compile configDir name o before := by
  unfold removeDropIn Unseen RemoveUnlinks
  dsimp only
  set path := dropInPath configDir name with hpath
  rcases hname : secretNameWhy name with _ | why
  swap
  · simp [RemoveKeeps]
  rcases hread : readFile configFileMax o.readFault (before path) with why | previous
  · by_cases hpresent : before path = .absent <;> simp [RemoveKeeps, hpresent]
  have hcontents : (before path).contents = some previous := readFile_eq_ok hread
  have hpresent : before path ≠ .absent := fun h => by simp [h, Entry.contents] at hcontents
  rcases hunlinked : o.unlinked with _ | _
  · simp [RemoveKeeps]
  by_cases hcompiles : Compiles load compile (Function.update before path .absent)
  · simp [RemoveKeeps, keepOrRestore, verify_of_compiles _ hcompiles, hcompiles, hpresent]
  · obtain ⟨refusal, hrefusal⟩ := keepOrRestore_of_not_compiles hcompiles
    have hupdated : Function.update before path .absent path = .absent := Function.update_self ..
    dsimp only
    rw [if_pos rfl, hrefusal, hupdated, ← hcontents]
    simp only [RemoveKeeps, Function.update_self, restore_keeps_iff]
    refine ⟨fun h => ⟨fun hunseen => hunseen.2.2 previous rfl, ?_⟩, fun h hlink => h.2 ?_⟩
    · rintro ⟨-, -, ⟨previous', hlink, hsame, hrestored⟩, -⟩
      cases hsame
      exact h ⟨⟨_, hlink⟩, by rw [hcontents, hrestored]⟩
    · obtain ⟨⟨target, htarget⟩, hrestored⟩ := hlink
      have htarget' : target = some previous := by rw [← hcontents, htarget, Entry.contents]
      exact ⟨trivial, trivial, ⟨previous, htarget' ▸ htarget, rfl, by rw [← hcontents, hrestored]⟩,
        hcompiles⟩

theorem keepOrRestore_elsewhere {α : Type} {broken : Bytes → Refusal} {kept : α} {denied : Bool}
    {other : Bytes} (h : other ≠ path) :
    (keepOrRestore load compile configDir path broken o previous kept denied disk).disk other =
      disk other := by
  rw [keepOrRestore]
  split
  · rfl
  · exact Function.update_of_ne h ..

theorem drop_ins_elsewhere {other : Bytes} (h : other ≠ dropInPath configDir name) :
    (installDropIn load compile configDir name text replace o before).disk other = before other ∧
      (removeDropIn load compile configDir name o before).disk other = before other := by
  constructor
  · by_cases hattempted : Attempted configDir name replace o before
    · rw [install_of_attempted hattempted]
      dsimp only
      split_ifs
      · rw [keepOrRestore_elsewhere h, Function.update_of_ne h]
      · exact Function.update_of_ne h ..
    · obtain ⟨refusal, hrefusal⟩ := install_of_not_attempted load compile text hattempted
      rw [hrefusal]
  · unfold removeDropIn
    dsimp only
    split
    · rfl
    split
    · rfl
    split_ifs
    · rw [keepOrRestore_elsewhere h, Function.update_of_ne h]
    · rfl

/-- Both calls are all or nothing, whatever the host answers, but for the four exceptions. -/
theorem drop_ins_all_or_nothing_iff (load : Disk → Except Bytes σ) (compile : σ → Except Bytes δ)
    (configDir name text : Bytes) (replace : Bool) (o : Outcomes) (before : Disk) :
    (InstallKeeps load compile (dropInPath configDir name) text before
          (installDropIn load compile configDir name text replace o before) ↔
        ¬Torn configDir name text replace o before ∧
          ¬InstallUnlinks load compile configDir name text replace o before) ∧
      (RemoveKeeps load compile (dropInPath configDir name) before
          (removeDropIn load compile configDir name o before) ↔
        ¬Unseen configDir name o before ∧
          ¬RemoveUnlinks load compile configDir name o before) :=
  ⟨install_keeps_iff, remove_keeps_iff⟩

end

/-! ## A file too large to read -/

def willing : Outcomes where
  statFault := false
  readFault := false
  directory := true
  write := ⟨⟨true, true, [], true, true, true⟩, false, ⟨true, [], true, true, true⟩⟩
  unlinked := true
  unlinkDenied := false
  restore := ⟨⟨true, true, [], true, true, true⟩, false, ⟨true, [], true, true, true⟩⟩
  restoreUnlinked := true
  why := []

/-- A configuration directory with one drop-in, a byte longer than a configuration file may be. -/
def oneTooLarge : Disk :=
  Function.update (fun _ => .absent) (dropInPath (asciis "/etc/netcfgd") (asciis "lan"))
    (.regular (List.replicate (configFileMax + 1) (ascii '#')))

/-- The removal of a file too large to read is told as success, and the file is there. -/
theorem too_large_not_removed :
    ¬RemoveKeeps (fun _ => Except.ok ()) (fun _ => Except.ok ())
      (dropInPath (asciis "/etc/netcfgd") (asciis "lan")) oneTooLarge
      (removeDropIn (fun _ => Except.ok ()) (fun _ => Except.ok ()) (asciis "/etc/netcfgd")
        (asciis "lan") willing oneTooLarge) := by
  have hname : secretNameWhy (asciis "lan") = none := rfl
  have hfile : oneTooLarge (dropInPath (asciis "/etc/netcfgd") (asciis "lan")) =
      .regular (List.replicate (configFileMax + 1) (ascii '#')) := Function.update_self ..
  have hread : readFile configFileMax false
      (.regular (List.replicate (configFileMax + 1) (ascii '#'))) = .error .tooLarge := by
    simp [readFile, Entry.contents]
  rw [remove_keeps_iff]
  refine fun h => h.1 ⟨hname, by simp [hfile], fun bytes => ?_⟩
  rw [hfile, show willing.readFault = false from rfl, hread]
  simp

end Netcfgd.Host
