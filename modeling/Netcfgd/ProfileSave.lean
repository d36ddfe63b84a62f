import Netcfgd.Profile

/-!
# Saving what a machine runs as a profile

A save takes the folded drop-ins out of `conf.d`, writes the rendering of the running document as
the snapshot of a profile, selects the profile, and compiles to see that the result is what runs. A
failure anywhere after the files were taken is undone by one block : the snapshot is removed, the
choice is written back or removed, and the folded files are written back.

That block knows what the choice and the folded files held, and nothing of the snapshot. So a save
that fails leaves the files as they were if and only if there was no snapshot before it and the
choice could be read; and the taking itself, which is not undone, must not stop halfway
(`failed_save_keeps_iff`).
-/

namespace Netcfgd.Host

open Netcfgd.Json (ascii asciis)

/-! ## The paths -/

def profileDirectory (configDir name : Bytes) : Bytes :=
  join (join configDir (asciis "profile")) name

/-- Where a saved profile has its rendering, by `SNAPSHOT_LEAF`. -/
def snapshotPath (configDir name : Bytes) : Bytes :=
  join (profileDirectory configDir name) (asciis "00-saved.conf")

/-- A file of `conf.d`. -/
def confPath (configDir leaf : Bytes) : Bytes := join (join configDir (asciis "conf.d")) leaf

/-- `is_folded`. -/
def isFolded (leaf : Bytes) : Bool := foldedPrefixes.any (·.isPrefixOf leaf)

/-- What `readdir` gives of `conf.d`, each name once; nothing where it can't be opened. -/
structure Listing where
  leaves : List Bytes
  nodup : leaves.Nodup

/-! ## Taking the folded files and putting them back -/

inductive SaveRefusal
  | profile (refusal : ProfileRefusal)
  | nothing
  | exists (name directory howToReplace : Bytes)
  | byHand (name directory : Bytes)
  | unread (path why : Bytes)
  | said (said : Bytes)
  | unwritable (missing : Bytes)
  | differs (name place : Bytes)
  deriving DecidableEq, Repr

/-- `ncfg_config_taken_t`. -/
structure Taken where
  path : Bytes
  text : Bytes
  deriving DecidableEq, Repr

/-- The host's answers while the folded files are taken, by path. -/
structure Taking where
  readFault : Bytes → Bool
  /-- An `unlink` is done. -/
  unlinks : Bytes → Bool
  why : Bytes := []

/-- The loop of `ncfg_config_take_folded`. What it took before it stops on a failure is gone. -/
def takeFolded (configDir : Bytes) (o : Taking) :
    List Bytes → Disk → List Taken → Disk × Except SaveRefusal (List Taken)
  | [], disk, taken => (disk, .ok taken)
  | leaf :: leaves, disk, taken =>
    if isFolded leaf then
      let path := confPath configDir leaf
      match readFile configFileMax (o.readFault path) (disk path) with
      | .error _ => (disk, .error (.unread path o.why))
      | .ok text =>
        if o.unlinks path then
          takeFolded configDir o leaves (Function.update disk path .absent)
            (taken ++ [⟨path, text⟩])
        else (disk, .error (.profile (.host (.unremoved path o.why))))
    else takeFolded configDir o leaves disk taken

/-- `ncfg_config_restore_folded`, and whether every write was done. -/
def restoreFolded (o : Calls) : List Taken → Disk → Disk × Bool
  | [], disk => (disk, true)
  | file :: taken, disk =>
    let written := o.write file.path file.text disk
    let restored := restoreFolded o taken written.1
    (restored.1, written.2 && restored.2)

/-! ## The save -/

/-- `ncfg_profile_set` : the path it wrote. -/
def profileSet {σ δ : Type*} (load : Disk → Except Bytes σ) (compile : σ → Except Bytes δ)
    (configDir name : Bytes) (o : Outcomes) (disk : Disk) :
    Disk × Bool × Except ProfileRefusal Bytes :=
  match secretNameWhy name with
  | some why => (disk, false, .error (.unusable name why))
  | none =>
    let returned :=
      installDropIn load compile configDir profileDropIn (profileBlock name) true o disk
    (returned.disk, returned.denied, returned.result.mapError .host)

structure Saving where
  /-- `stat` says that the profile has a directory, -/
  isDirectory : Bool
  /-- and fails of its snapshot although it is there. -/
  statFault : Bool
  taking : Taking
  /-- The `open` or the `read` of the choice fails although it is there. -/
  readFault : Bool
  /-- `ncfg_host_make_directory` of the profile's directory. -/
  directory : Bool
  snapshot : Attempt
  select : Outcomes
  undo : Calls
  why : Bytes := []

/-- What a save returns and the files it leaves. `undone` is for the reader : whether every call of
the undo did what it was asked, where there was one. -/
structure Saved where
  disk : Disk
  result : Except SaveRefusal Bytes
  denied : Bool := false
  undone : Option Bool := none

section

variable {δ ω : Type*}
  -- `ncfg_config_load_with_profile`, `ncfg_config_load_layered` and
  -- `ncfg_config_compile_for_reading`
  (load loadLayered : Disk → Except Bytes (List Source)) (compile : List Source → Except Bytes δ)
  -- `collect_overrides`, `without_what_the_base_says`, and `ncfg_render` with what is in its way
  (collectOverrides : Option δ → Except Bytes ω) (trim : δ → Option δ → Except Bytes δ)
  (render : δ → ω → Except Bytes Bytes)
  -- `ncfg_config_documents_agree`, with what it says where they don't
  (agree : δ → Bytes → Option δ → Except Bytes Unit)

/-- The text of the snapshot, up to where `strlen` finds its end. -/
def snapshotText (running : δ) (disk : Disk) : Except SaveRefusal Bytes :=
  let base := compiled loadLayered compile disk
  match collectOverrides base with
  | .error said => .error (.said said)
  | .ok overrides =>
    match trim running base with
    | .error said => .error (.said said)
    | .ok toWrite =>
      match render toWrite overrides with
      | .error missing => .error (.unwritable missing)
      | .ok text => .ok (text.takeWhile (· ≠ 0))

/-- `write_profile_snapshot`, with `denied`. -/
def writeProfileSnapshot (configDir name : Bytes) (running : δ) (o : Saving) (disk : Disk) :
    Disk × Bool × Except SaveRefusal Unit :=
  match snapshotText loadLayered compile collectOverrides trim render running disk with
  | .error refusal => (disk, false, .error refusal)
  | .ok text =>
    let snapshot := snapshotPath configDir name
    if o.directory then
      let written := configWriteAtomically o.snapshot text (disk snapshot)
      let disk := Function.update disk snapshot written.entry
      if written.ok then
        match profileSet load compile configDir name o.select disk with
        | (disk, denied, .error refusal) => (disk, denied, .error (.profile refusal))
        | (disk, denied, .ok _) =>
          match agree running name (compiled load compile disk) with
          | .error place => (disk, denied, .error (.differs name place))
          | .ok () => (disk, denied, .ok ())
      else (disk, written.denied, .error (.profile (.host (.unwritten snapshot o.why))))
    else (disk, false,
      .error (.profile (.host (.directory (profileDirectory configDir name) o.why))))

/-- The undo of `ncfg_profile_save`, and whether every call was done. What it does to directories is
left out. -/
def undoSave (configDir name : Bytes) (o : Calls) (selectedBefore : Option Bytes)
    (taken : List Taken) (disk : Disk) : Disk × Bool :=
  let selection := selectionPath configDir
  let unsaved := o.unlink (snapshotPath configDir name) disk
  let selected := match selectedBefore with
    | some bytes => o.write selection bytes unsaved.1
    | none =>
      let gone := o.unlink selection unsaved.1
      (gone.1, gone.2 != Gone.failed)
  let restored := restoreFolded o taken selected.1
  (restored.1, unsaved.2 != Gone.failed && selected.2 && restored.2)

/-- `ncfg_profile_save` from the taking on. -/
def saveTaken (configDir name : Bytes) (running : δ) (o : Saving) (listing : Listing)
    (disk : Disk) : Saved :=
  match takeFolded configDir o.taking listing.leaves disk [] with
  | (disk, .error refusal) => { disk, result := .error refusal }
  | (disk, .ok taken) =>
    let selectedBefore :=
      (readFile configFileMax o.readFault (disk (selectionPath configDir))).toOption
    match writeProfileSnapshot load loadLayered compile collectOverrides trim render agree configDir
      name running o disk with
    | (disk, denied, .ok ()) => { disk, result := .ok (snapshotPath configDir name), denied }
    | (disk, denied, .error refusal) =>
      let undone := undoSave configDir name o.undo selectedBefore taken disk
      { disk := undone.1, result := .error refusal, denied, undone := some undone.2 }

/-- What is checked before anything is written. -/
def saveWhy (configDir name : Bytes) (replace : Bool) (running : Option δ)
    (howToReplace : Option Bytes) (o : Saving) (disk : Disk) : Except SaveRefusal δ :=
  match secretNameWhy name with
  | some why => .error (.profile (.unusable name why))
  | none =>
    match running with
    | none => .error .nothing
    | some running =>
      let directory := profileDirectory configDir name
      if o.isDirectory ∧ replace = false then
        .error (.exists name directory (howToReplace.getD (asciis "ask to replace it")))
      else if o.isDirectory ∧
          (o.statFault ∨ (disk (snapshotPath configDir name)).contents = none) then
        .error (.byHand name directory)
      else .ok running

/-- `ncfg_profile_save` : the path of the snapshot. -/
def profileSave (configDir name : Bytes) (replace : Bool) (running : Option δ)
    (howToReplace : Option Bytes) (o : Saving) (listing : Listing) (disk : Disk) : Saved :=
  match saveWhy configDir name replace running howToReplace o disk with
  | .error refusal => { disk, result := .error refusal }
  | .ok running =>
    saveTaken load loadLayered compile collectOverrides trim render agree configDir name running o
      listing disk

end

/-! ## A failed save changes nothing -/

/-- Every file has in it what it had, and no file has appeared or disappeared. -/
def SameFiles (one other : Disk) : Prop :=
  ∀ path, (one path).contents = (other path).contents ∧ (one path = .absent ↔ other path = .absent)

/-- A save that is refused leaves the files as they were, unless a call of the undo failed. -/
def FailureKeeps (before : Disk) (r : Saved) : Prop :=
  match r.result with
  | .ok _ => True
  | .error _ => r.undone ≠ some false → SameFiles r.disk before

def Listing.folded (listing : Listing) : List Bytes := listing.leaves.filter isFolded

def Takeable (configDir : Bytes) (o : Taking) (disk : Disk) (leaf : Bytes) : Prop :=
  (∃ text, readFile configFileMax (o.readFault (confPath configDir leaf))
      (disk (confPath configDir leaf)) = .ok text) ∧
    o.unlinks (confPath configDir leaf) = true

/-- All of the folded files can be taken, or the first one listed already can't. -/
def TakenWhole (configDir : Bytes) (o : Taking) (listing : Listing) (disk : Disk) : Prop :=
  (∀ leaf ∈ listing.folded, Takeable configDir o disk leaf) ∨
    ∃ leaf, listing.folded.head? = some leaf ∧ ¬Takeable configDir o disk leaf

/-- There is no snapshot, and the choice is not there or can be read. -/
def Unsaved (configDir name : Bytes) (o : Saving) (disk : Disk) : Prop :=
  disk (snapshotPath configDir name) = .absent ∧
    (disk (selectionPath configDir) = .absent ∨
      ∃ text, readFile configFileMax o.readFault (disk (selectionPath configDir)) = .ok text)

/-! ## The paths are apart -/

theorem confPath_inj {configDir one other : Bytes} :
    confPath configDir one = confPath configDir other ↔ one = other := by
  simp [confPath, join]

theorem selectionPath_eq (configDir : Bytes) :
    selectionPath configDir = confPath configDir (asciis "90-profile.conf") := rfl

theorem selectionPath_ne_confPath {configDir leaf : Bytes} (h : isFolded leaf = true) :
    selectionPath configDir ≠ confPath configDir leaf := by
  rw [selectionPath_eq, Ne, confPath_inj]
  rintro rfl
  have hunfolded : isFolded (asciis "90-profile.conf") = false := rfl
  rw [hunfolded] at h
  cases h

theorem snapshotPath_ne_confPath (configDir name leaf : Bytes) :
    snapshotPath configDir name ≠ confPath configDir leaf := by
  have hne : ascii 'p' ≠ ascii 'c' := by decide
  intro h
  simp only [snapshotPath, profileDirectory, confPath, join, List.append_assoc,
    List.append_cancel_left_eq, List.cons_append, List.cons.injEq, true_and] at h
  exact hne (List.cons.inj h).1

/-! ## What is taken -/

def removed (paths : List Bytes) (disk : Disk) : Disk :=
  fun path => if path ∈ paths then .absent else disk path

theorem removed_nil (disk : Disk) : removed [] disk = disk := by
  funext path
  simp [removed]

theorem removed_update (path : Bytes) (paths : List Bytes) (disk : Disk) :
    removed paths (Function.update disk path .absent) = removed (path :: paths) disk := by
  funext other
  by_cases hother : other = path
  · simp [removed, hother]
  · simp [removed, hother]

variable {configDir name : Bytes}

theorem takeable_update {o : Taking} {disk : Disk} {leaf other : Bytes} {e : Entry}
    (h : other ≠ leaf) :
    Takeable configDir o (Function.update disk (confPath configDir leaf) e) other ↔
      Takeable configDir o disk other := by
  have hpath : confPath configDir other ≠ confPath configDir leaf := fun heq =>
    h (confPath_inj.1 heq)
  rw [Takeable, Function.update_of_ne hpath, Takeable]

theorem takeFolded_spec (o : Taking) : ∀ (leaves : List Bytes) (disk : Disk) (taken : List Taken),
    leaves.Nodup →
    (∃ files : List Taken,
        takeFolded configDir o leaves disk taken =
          (removed (files.map Taken.path) disk, .ok (taken ++ files)) ∧
        files.map Taken.path = (leaves.filter isFolded).map (confPath configDir) ∧
        (∀ leaf ∈ leaves.filter isFolded, Takeable configDir o disk leaf) ∧
        ∀ file ∈ files, (disk file.path).contents = some file.text) ∨
      ∃ early leaf late refusal, leaves.filter isFolded = early ++ leaf :: late ∧
        (∀ other ∈ early, Takeable configDir o disk other) ∧ ¬Takeable configDir o disk leaf ∧
        takeFolded configDir o leaves disk taken =
          (removed (early.map (confPath configDir)) disk, .error refusal)
  | [], disk, taken, _ => .inl ⟨[], by simp [takeFolded, removed_nil]⟩
  | leaf :: leaves, disk, taken, hnodup => by
    rw [List.nodup_cons] at hnodup
    by_cases hfolded : isFolded leaf = true
    swap
    · rw [takeFolded, if_neg hfolded, List.filter_cons_of_neg hfolded]
      exact takeFolded_spec o leaves disk taken hnodup.2
    rw [takeFolded, if_pos hfolded, List.filter_cons_of_pos hfolded]
    dsimp only
    by_cases htakeable : Takeable configDir o disk leaf
    swap
    · refine .inr ⟨[], leaf, leaves.filter isFolded, ?_⟩
      rcases hread : readFile configFileMax (o.readFault (confPath configDir leaf))
        (disk (confPath configDir leaf)) with why | text
      · exact ⟨_, by simp, by simp, htakeable, by simp [removed_nil]; rfl⟩
      · have hunlinks : o.unlinks (confPath configDir leaf) = false := by
          simpa [Takeable, hread] using htakeable
        exact ⟨_, by simp, by simp, htakeable, by simp [removed_nil, hunlinks]; rfl⟩
    obtain ⟨⟨text, hread⟩, hunlinks⟩ := id htakeable
    have hne : ∀ other ∈ leaves.filter isFolded, other ≠ leaf := fun other hmem heq =>
      hnodup.1 (heq ▸ List.mem_of_mem_filter hmem)
    simp only [hread, hunlinks, if_true]
    rcases takeFolded_spec o leaves (Function.update disk (confPath configDir leaf) .absent)
      (taken ++ [⟨confPath configDir leaf, text⟩]) hnodup.2 with
      ⟨files, hresult, hpaths, hall, hcontents⟩ |
      ⟨early, stop, late, refusal, hsplit, hall, hstop, hresult⟩
    · refine .inl ⟨⟨confPath configDir leaf, text⟩ :: files, ?_, by simp [hpaths], ?_, ?_⟩
      · rw [hresult, removed_update]
        simp
      · intro other hmem
        rcases List.mem_cons.1 hmem with rfl | hmem
        · exact htakeable
        · exact (takeable_update (hne other hmem)).1 (hall other hmem)
      · intro file hmem
        rcases List.mem_cons.1 hmem with rfl | hmem
        · exact readFile_eq_ok hread
        · have hpath : file.path ∈ (leaves.filter isFolded).map (confPath configDir) :=
            hpaths ▸ List.mem_map_of_mem hmem
          obtain ⟨other, hother, heq⟩ := List.mem_map.1 hpath
          have hne' : file.path ≠ confPath configDir leaf := fun hsame =>
            hne other hother (confPath_inj.1 (heq.trans hsame))
          rw [← hcontents file hmem, Function.update_of_ne hne']
    · refine .inr ⟨leaf :: early, stop, late, refusal, by simp [hsplit], ?_, ?_, ?_⟩
      · intro other hmem
        rcases List.mem_cons.1 hmem with rfl | hmem'
        · exact htakeable
        · exact (takeable_update (hne other (by simp [hsplit, hmem']))).1 (hall other hmem')
      · exact fun h => hstop ((takeable_update (hne stop (by simp [hsplit]))).2 h)
      · rw [hresult, removed_update, List.map_cons]

/-! ## What the undo comes to -/

theorem Calls.write_of_ok {o : Calls} {path text : Bytes} {disk : Disk}
    (h : (o.write path text disk).2 = true) :
    (o.write path text disk).1 = Function.update disk path (.regular text) := by
  simp only [Calls.write] at h ⊢
  rw [configWriteAtomically_ok h]

theorem Calls.unlink_of_not_failed {o : Calls} {path : Bytes} {disk : Disk}
    (h : (o.unlink path disk).2 ≠ .failed) :
    (o.unlink path disk).1 = Function.update disk path .absent := by
  unfold Calls.unlink at h ⊢
  split_ifs at h ⊢ with habsent hdone
  · rw [← habsent, Function.update_eq_self]
  · rfl
  · exact absurd rfl h

theorem restoreFolded_of_ok {o : Calls} : ∀ {taken : List Taken} {disk : Disk},
    (restoreFolded o taken disk).2 = true → (taken.map Taken.path).Nodup →
    (∀ file ∈ taken, (restoreFolded o taken disk).1 file.path = .regular file.text) ∧
      ∀ path, path ∉ taken.map Taken.path → (restoreFolded o taken disk).1 path = disk path
  | [], _, _, _ => by simp [restoreFolded]
  | file :: taken, disk, h, hnodup => by
    simp only [restoreFolded, Bool.and_eq_true] at h
    rw [List.map_cons, List.nodup_cons] at hnodup
    obtain ⟨hback, hsame⟩ := restoreFolded_of_ok h.2 hnodup.2
    simp only [restoreFolded]
    rw [Calls.write_of_ok h.1] at hback hsame ⊢
    refine ⟨fun other hmem => ?_, fun path hpath => ?_⟩
    · rcases List.mem_cons.1 hmem with rfl | hmem
      · rw [hsame _ hnodup.1, Function.update_self]
      · exact hback other hmem
    · rw [List.map_cons, List.mem_cons, not_or] at hpath
      rw [hsame path hpath.2, Function.update_of_ne hpath.1]

/-- Where every call of the undo is done, there is no snapshot, the choice is what was read of it,
and the files that were taken are back. -/
theorem undoSave_of_ok {o : Calls} {selectedBefore : Option Bytes} {taken : List Taken}
    {disk : Disk} (h : (undoSave configDir name o selectedBefore taken disk).2 = true)
    (hnodup : (taken.map Taken.path).Nodup)
    (hselection : selectionPath configDir ∉ taken.map Taken.path)
    (hsnapshot : snapshotPath configDir name ∉ taken.map Taken.path) :
    let after := (undoSave configDir name o selectedBefore taken disk).1
    after (snapshotPath configDir name) = .absent ∧
      after (selectionPath configDir) = restored selectedBefore ∧
      (∀ file ∈ taken, after file.path = .regular file.text) ∧
      ∀ path, path ≠ snapshotPath configDir name → path ≠ selectionPath configDir →
        path ∉ taken.map Taken.path → after path = disk path := by
  have hne : snapshotPath configDir name ≠ selectionPath configDir := by
    rw [selectionPath_eq]
    exact snapshotPath_ne_confPath _ _ _
  simp only [undoSave, Bool.and_eq_true, bne_iff_ne, ne_eq] at h ⊢
  obtain ⟨⟨hunsaved, hselected⟩, hrestored⟩ := h
  rw [Calls.unlink_of_not_failed hunsaved] at hselected hrestored ⊢
  obtain ⟨hback, hsame⟩ := restoreFolded_of_ok hrestored hnodup
  rcases selectedBefore with _ | bytes
  · simp only [bne_iff_ne, ne_eq] at hselected
    dsimp only at hback hsame ⊢
    rw [Calls.unlink_of_not_failed hselected] at hback hsame ⊢
    refine ⟨?_, ?_, hback, fun path hpath hpath' hout => ?_⟩
    · rw [hsame _ hsnapshot, Function.update_of_ne hne, Function.update_self]
    · rw [hsame _ hselection, Function.update_self, restored]
    · rw [hsame _ hout, Function.update_of_ne hpath', Function.update_of_ne hpath]
  · dsimp only at hselected hback hsame ⊢
    rw [Calls.write_of_ok hselected] at hback hsame ⊢
    refine ⟨?_, ?_, hback, fun path hpath hpath' hout => ?_⟩
    · rw [hsame _ hsnapshot, Function.update_of_ne hne, Function.update_self]
    · rw [hsame _ hselection, Function.update_self, restored]
    · rw [hsame _ hout, Function.update_of_ne hpath', Function.update_of_ne hpath]

section

variable {δ ω : Type*} {load loadLayered : Disk → Except Bytes (List Source)}
  {compile : List Source → Except Bytes δ} {collectOverrides : Option δ → Except Bytes ω}
  {trim : δ → Option δ → Except Bytes δ} {render : δ → ω → Except Bytes Bytes}
  {agree : δ → Bytes → Option δ → Except Bytes Unit} {running : δ} {o : Saving}
  {listing : Listing} {disk : Disk}

theorem profileSet_elsewhere (load : Disk → Except Bytes (List Source))
    (compile : List Source → Except Bytes δ) (name : Bytes) (o : Outcomes) (disk : Disk)
    {path : Bytes} (h : path ≠ selectionPath configDir) :
    (profileSet load compile configDir name o disk).1 path = disk path := by
  rw [profileSet]
  split
  · rfl
  · exact (drop_ins_elsewhere h).1

variable (load loadLayered compile collectOverrides trim render agree running o disk) in
theorem writeProfileSnapshot_elsewhere {path : Bytes}
    (hsnapshot : path ≠ snapshotPath configDir name)
    (hselection : path ≠ selectionPath configDir) :
    (writeProfileSnapshot load loadLayered compile collectOverrides trim render agree configDir name
      running o disk).1 path = disk path := by
  rw [writeProfileSnapshot]
  split
  · rfl
  · dsimp only
    split_ifs
    · have hset := profileSet_elsewhere load compile name o.select
        (Function.update disk (snapshotPath configDir name)
          (configWriteAtomically o.snapshot ‹_› (disk (snapshotPath configDir name))).entry)
        hselection
      rw [Function.update_of_ne hsnapshot] at hset
      split
      · rename_i heq
        rw [heq] at hset
        exact hset
      · rename_i heq
        rw [heq] at hset
        split <;> exact hset
    · exact Function.update_of_ne hsnapshot ..
    · rfl

theorem takeFolded_keeps_iff {refusal : SaveRefusal}
    (h : (takeFolded configDir o.taking listing.leaves disk []).2 = .error refusal) :
    SameFiles (takeFolded configDir o.taking listing.leaves disk []).1 disk ↔
      TakenWhole configDir o.taking listing disk := by
  rcases takeFolded_spec o.taking listing.leaves disk [] listing.nodup with
    ⟨files, hresult, -⟩ | ⟨early, leaf, late, refusal', hsplit, hall, hstop, hresult⟩
  · rw [hresult] at h
    cases h
  rw [hresult]
  rcases early with _ | ⟨first, early⟩
  · simp only [List.map_nil, removed_nil]
    refine iff_of_true (fun path => ⟨rfl, Iff.rfl⟩) (.inr ⟨leaf, ?_, hstop⟩)
    rw [Listing.folded, hsplit]
    rfl
  · obtain ⟨⟨text, hread⟩, -⟩ := hall first List.mem_cons_self
    refine iff_of_false (fun hsame => ?_) ?_
    · have hgone := (hsame (confPath configDir first)).1
      rw [readFile_eq_ok hread] at hgone
      simp [removed, Entry.contents] at hgone
    · rintro (hwhole | ⟨other, hhead, hother⟩)
      · exact hstop (hwhole leaf (by simp [Listing.folded, hsplit]))
      · rw [Listing.folded, hsplit] at hhead
        cases hhead
        exact hother (hall _ List.mem_cons_self)

/-- After the undo the files are as they were if and only if there was nothing the undo takes away
for good. -/
theorem selection_undone_iff {files : List Taken} {selectedBefore : Option Bytes} {between : Disk}
    (hpaths : files.map Taken.path = listing.folded.map (confPath configDir))
    (hcontents : ∀ file ∈ files, (disk file.path).contents = some file.text)
    (hselected : selectedBefore =
      (readFile configFileMax o.readFault (disk (selectionPath configDir))).toOption)
    (hbetween : ∀ path, path ≠ snapshotPath configDir name → path ≠ selectionPath configDir →
      path ∉ files.map Taken.path → between path = disk path)
    (hundone : (undoSave configDir name o.undo selectedBefore files between).2 = true) :
    SameFiles (undoSave configDir name o.undo selectedBefore files between).1 disk ↔
      Unsaved configDir name o disk := by
  have hnodup : (files.map Taken.path).Nodup := by
    rw [hpaths]
    exact (listing.nodup.filter _).map fun _ _ heq => confPath_inj.1 heq
  have hselection : selectionPath configDir ∉ files.map Taken.path := by
    rw [hpaths, List.mem_map]
    rintro ⟨leaf, hmem, heq⟩
    exact selectionPath_ne_confPath (List.of_mem_filter hmem) heq.symm
  have hsnapshot : snapshotPath configDir name ∉ files.map Taken.path := by
    rw [hpaths, List.mem_map]
    rintro ⟨leaf, -, heq⟩
    exact snapshotPath_ne_confPath configDir name leaf heq.symm
  obtain ⟨hunsaved, hchoice, hback, helse⟩ := undoSave_of_ok hundone hnodup hselection hsnapshot
  constructor
  · intro hsame
    refine ⟨(hsame _).2.1 hunsaved, ?_⟩
    rcases hread :
      readFile configFileMax o.readFault (disk (selectionPath configDir)) with why | text
    · have hnone : restored selectedBefore = .absent := by
        rw [hselected, hread]
        rfl
      exact .inl ((hsame _).2.1 (hchoice.trans hnone))
    · exact .inr ⟨text, rfl⟩
  · rintro ⟨hnone, hreadable⟩ path
    by_cases hpath : path = snapshotPath configDir name
    · rw [hpath, hunsaved, hnone]
      exact ⟨rfl, Iff.rfl⟩
    by_cases hpath' : path = selectionPath configDir
    · rw [hpath', hchoice, hselected]
      rcases hreadable with habsent | ⟨text, hread⟩
      · rw [habsent, readFile]
        exact ⟨rfl, Iff.rfl⟩
      · rw [hread, readFile_eq_ok hread]
        refine ⟨rfl, iff_of_false (by simp [Except.toOption, restored]) fun habsent => ?_⟩
        rw [habsent] at hread
        cases hread
    by_cases hfile : path ∈ files.map Taken.path
    · obtain ⟨file, hmem, rfl⟩ := List.mem_map.1 hfile
      have hthere := hcontents file hmem
      rw [hback file hmem, hthere]
      refine ⟨rfl, iff_of_false (by simp) fun habsent => ?_⟩
      rw [habsent] at hthere
      cases hthere
    · rw [helse path hpath hpath' hfile, hbetween path hpath hpath' hfile]
      exact ⟨rfl, Iff.rfl⟩

theorem saveTaken_keeps_iff :
    FailureKeeps disk (saveTaken load loadLayered compile collectOverrides trim render agree
        configDir name running o listing disk) ↔
      TakenWhole configDir o.taking listing disk ∧
        ((saveTaken load loadLayered compile collectOverrides trim render agree configDir name
            running o listing disk).undone = some true → Unsaved configDir name o disk) := by
  rcases htake :
    takeFolded configDir o.taking listing.leaves disk [] with ⟨between, refusal | files⟩
  · have herror : (takeFolded configDir o.taking listing.leaves disk []).2 = .error refusal := by
      rw [htake]
    have hkeeps := takeFolded_keeps_iff herror
    rw [htake] at hkeeps
    rw [saveTaken, htake]
    simpa [FailureKeeps] using hkeeps
  rcases takeFolded_spec o.taking listing.leaves disk [] listing.nodup with
    ⟨files', hresult, hpaths, hall, hcontents⟩ | ⟨early, leaf, late, refusal', -, -, -, hresult⟩
  swap
  · rw [hresult] at htake
    cases htake
  obtain ⟨rfl, rfl⟩ : between = removed (files'.map Taken.path) disk ∧ files = files' := by
    rw [hresult] at htake
    cases htake
    exact ⟨rfl, rfl⟩
  have hwhole : TakenWhole configDir o.taking listing disk := .inl hall
  have hselection : removed (files.map Taken.path) disk (selectionPath configDir) =
      disk (selectionPath configDir) := by
    rw [removed, if_neg]
    rw [hpaths, List.mem_map]
    rintro ⟨leaf, hmem, heq⟩
    exact selectionPath_ne_confPath (List.of_mem_filter hmem) heq.symm
  rw [saveTaken, htake]
  dsimp only
  have helse := fun path (hsnapshot : path ≠ snapshotPath configDir name) hselection =>
    writeProfileSnapshot_elsewhere load loadLayered compile collectOverrides trim render agree
      running o (removed (files.map Taken.path) disk) hsnapshot hselection
  rcases hwrite : writeProfileSnapshot load loadLayered compile collectOverrides trim render agree
    configDir name running o (removed (files.map Taken.path) disk) with ⟨after, denied, refusal | _⟩
  swap
  · simp [FailureKeeps, hwhole]
  rw [hwrite] at helse
  dsimp only [FailureKeeps]
  rw [hselection]
  rcases hundone : (undoSave configDir name o.undo (readFile configFileMax o.readFault
    (disk (selectionPath configDir))).toOption files after).2 with _ | _
  · simp [hwhole]
  · have hfolded : files.map Taken.path = listing.folded.map (confPath configDir) := hpaths
    rw [selection_undone_iff hfolded hcontents rfl (fun path hsnapshot hselect hout => ?_)
      hundone]
    · simp [hwhole]
    · refine (helse path hsnapshot hselect).trans ?_
      rw [removed, if_neg hout]

/-- A save that fails changes nothing if and only if the taking is whole and, where it was undone,
the undo had nothing to lose. -/
theorem failed_save_keeps_iff (load loadLayered : Disk → Except Bytes (List Source))
    (compile : List Source → Except Bytes δ) (collectOverrides : Option δ → Except Bytes ω)
    (trim : δ → Option δ → Except Bytes δ) (render : δ → ω → Except Bytes Bytes)
    (agree : δ → Bytes → Option δ → Except Bytes Unit) (configDir name : Bytes) (replace : Bool)
    (running : Option δ) (howToReplace : Option Bytes) (o : Saving) (listing : Listing)
    (disk : Disk) :
    FailureKeeps disk (profileSave load loadLayered compile collectOverrides trim render agree
        configDir name replace running howToReplace o listing disk) ↔
      ∀ document, saveWhy configDir name replace running howToReplace o disk = .ok document →
        TakenWhole configDir o.taking listing disk ∧
          ((profileSave load loadLayered compile collectOverrides trim render agree configDir name
              replace running howToReplace o listing disk).undone = some true →
            Unsaved configDir name o disk) := by
  rcases hwhy : saveWhy configDir name replace running howToReplace o disk with refusal | document
  · rw [profileSave, hwhy]
    simp [FailureKeeps, SameFiles]
  · rw [profileSave, hwhy]
    simp [saveTaken_keeps_iff]

end

/-! ## A snapshot that was there -/

/-- A host that does all it is asked, about a profile that has a directory. -/
def willingSave : Saving where
  isDirectory := true
  statFault := false
  taking := ⟨fun _ => false, fun _ => true, []⟩
  readFault := false
  directory := true
  snapshot := willing.write
  select := willing
  undo := willingCalls

def savedBefore : Disk :=
  Function.update (fun _ => .absent) (snapshotPath (asciis "/etc/netcfgd") (asciis "office"))
    (.regular (asciis "global \x7b\n\x7d\n"))

/-- Saving over a profile fails for a setting that has no spelling, and the profile is gone. -/
theorem snapshot_lost :
    ¬FailureKeeps savedBefore
      (profileSave (fun _ => .ok []) (fun _ => .ok []) (fun _ => .ok ()) (fun _ => .ok ())
        (fun _ _ => .ok ()) (fun _ _ => .error (asciis "interface `lan`: `vrf`"))
        (fun _ _ _ => .ok ()) (asciis "/etc/netcfgd") (asciis "office") true (some ()) none
        willingSave ⟨[], List.nodup_nil⟩ savedBefore) := by
  have husable : secretNameWhy (asciis "office") = none := rfl
  have hthere : savedBefore (snapshotPath (asciis "/etc/netcfgd") (asciis "office")) =
      .regular (asciis "global \x7b\n\x7d\n") := Function.update_self ..
  have hwhy : saveWhy (asciis "/etc/netcfgd") (asciis "office") true (some ()) none willingSave
      savedBefore = .ok () := by
    simp [saveWhy, husable, hthere, Entry.contents, willingSave]
  rw [profileSave, hwhy]
  dsimp only
  rw [saveTaken_keeps_iff]
  rintro ⟨-, h⟩
  have hnone := (h rfl).1
  rw [hthere] at hnone
  cases hnone

end Netcfgd.Host
