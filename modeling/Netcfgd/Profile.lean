import Netcfgd.DropIn

/-!
# Taking a machine off its profile

A profile is chosen by a drop-in of its own. Taking the machine off it folds the files of the
profile into one more drop-in and removes the choice. Where a file sorts decides what it means, so
the fold is tried at the front and then at the back, each time compiled with the real loader and
undone when the configuration isn't the one from before.

The undo and the restore go by name : they remove what is at the two positions and write the choice
anew. So they put the files back only where the positions were free and, for the restore, where the
choice was spelled as the code spells it (`profile_adopt_undone_iff`).
-/

namespace Netcfgd.Host

open Netcfgd.Json (Buf ascii asciis asciis_ofList)

/-! ## Calls on more than one file -/

/-- What an `unlink` answers. -/
inductive Gone
  | done
  /-- `ENOENT`. -/
  | absent
  | failed
  deriving DecidableEq, Repr

/-- The host's answers where each path is written once and removed once. -/
structure Calls where
  writes : Bytes → Attempt
  /-- An `unlink` of what is there is done. -/
  unlinks : Bytes → Bool
  /-- What `strerror` says of the call that fails. -/
  why : Bytes := []

namespace Calls

variable (o : Calls) (path text : Bytes) (disk : Disk)

/-- `ncfg_config_write_atomically` on one of the files. -/
def write : Disk × Bool :=
  let written := configWriteAtomically (o.writes path) text (disk path)
  (Function.update disk path written.entry, written.ok)

/-- `unlink`. -/
def unlink : Disk × Gone :=
  if disk path = .absent then (disk, .absent)
  else if o.unlinks path then (Function.update disk path .absent, .done)
  else (disk, .failed)

/-- Every call does what it is asked, with texts as long as a configuration file may be. -/
structure Succeed : Prop where
  writes : ∀ path length, length ≤ configFileMax → (o.writes path).staging.succeeds length = true
  unlinks : ∀ path, o.unlinks path = true

variable {o path text disk}

theorem Succeed.write (h : o.Succeed) (htext : text.length ≤ configFileMax) :
    o.write path text disk = (Function.update disk path (.regular text), true) := by
  simp [Calls.write, configWriteAtomically, hostWriteAtomically, h.writes path _ htext]

theorem Succeed.unlink (h : o.Succeed) :
    o.unlink path disk =
      (Function.update disk path .absent, if disk path = .absent then .absent else .done) := by
  by_cases hpath : disk path = .absent
  · have hsame :
      Function.update disk path .absent = disk := by rw [← hpath, Function.update_eq_self]
    simp [Calls.unlink, hpath, hsame]
  · simp [Calls.unlink, hpath, h.unlinks path]

end Calls

/-! ## The names of a profile -/

/-- `NCFG_PROFILE_DROP_IN`. -/
def profileDropIn : Bytes := asciis "90-profile"

/-- `ncfg_config_folded_prefixes`. -/
def foldedPrefixes : List Bytes := [asciis "05-profile-", asciis "zz-profile-"]

def selectionPath (configDir : Bytes) : Bytes := dropInPath configDir profileDropIn

/-- A drop-in that a profile is folded into. Its name is cut to `folded_name`. -/
def foldedPath (configDir pre name : Bytes) : Bytes := dropInPath configDir ((pre ++ name).take 255)

/-- `ncfg_config_profile_block`. -/
def profileBlock (name : Bytes) : Bytes :=
  asciis "global \x7b\n\tprofile = \"" ++ name ++ asciis "\"\n\x7d\n"

theorem dropInPath_inj {configDir one other : Bytes} :
    dropInPath configDir one = dropInPath configDir other ↔ one = other := by
  simp [dropInPath, join]

theorem profile_paths_ne (configDir name : Bytes) :
    foldedPath configDir (asciis "05-profile-") name ≠
        foldedPath configDir (asciis "zz-profile-") name ∧
      foldedPath configDir (asciis "05-profile-") name ≠ selectionPath configDir ∧
      foldedPath configDir (asciis "zz-profile-") name ≠ selectionPath configDir := by
  have hearly : ((asciis "05-profile-" ++ name).take 255).head? = some (ascii '0') := rfl
  have hlate : ((asciis "zz-profile-" ++ name).take 255).head? = some (ascii 'z') := rfl
  have hselection : profileDropIn.head? = some (ascii '9') := rfl
  have hdigits : ascii '0' ≠ ascii 'z' ∧ ascii '0' ≠ ascii '9' ∧ ascii 'z' ≠ ascii '9' := by decide
  simp only [foldedPath, selectionPath, ne_eq, dropInPath_inj]
  refine ⟨fun h => hdigits.1 ?_, fun h => hdigits.2.1 ?_, fun h => hdigits.2.2 ?_⟩
  · simpa [h, hlate] using hearly.symm
  · simpa [h, hselection] using hearly.symm
  · simpa [h, hselection] using hlate.symm

/-! ## Choosing again -/

inductive ProfileRefusal
  | unusable (name why : Bytes)
  | host (refusal : Refusal)
  | unloaded (said : Bytes)
  | tooLarge (name : Bytes)
  | changes (name : Bytes)
  | uncompiled (name : Bytes)
  | unfolded
  deriving DecidableEq, Repr

/-- The loop of `ncfg_profile_restore`, which ends at a file that could not be removed. -/
def removeFolded (o : Calls) : List Bytes → Disk → Disk × Except ProfileRefusal Unit
  | [], disk => (disk, .ok ())
  | path :: paths, disk =>
    match o.unlink path disk with
    | (disk, .failed) => (disk, .error (.host (.unremoved path o.why)))
    | (disk, _) => removeFolded o paths disk

/-- `ncfg_profile_restore`. -/
def profileRestore (configDir name : Bytes) (o : Calls) (disk : Disk) :
    Disk × Except ProfileRefusal Unit :=
  match secretNameWhy name with
  | some why => (disk, .error (.unusable name why))
  | none =>
    match removeFolded o (foldedPrefixes.map (foldedPath configDir · name)) disk with
    | (disk, .error refusal) => (disk, .error refusal)
    | (disk, .ok ()) =>
      match o.write (selectionPath configDir) (profileBlock name) disk with
      | (disk, true) => (disk, .ok ())
      | (disk, false) => (disk, .error (.host (.unwritten (selectionPath configDir) o.why)))

/-! ## The fold -/

/-- `ncfg_config_file_t` : a file the loader read, with its includes taken out. -/
structure Source where
  name : Bytes
  text : Bytes
  deriving DecidableEq, Repr

def foldedHead (name : Bytes) : Bytes :=
  asciis "# Generated by netcfgd: the `" ++ name ++
  asciis "` profile, folded in when a setting\n" ++
    asciis "# was changed by hand. The machine is on no profile now (0151); this\n" ++
    asciis "# file is what it was running, so nothing moved. Edit it freely, or\n" ++
    asciis "# `ncfg profile save " ++ name ++ asciis "` to put it back and select it again.\n"

def addSources (base : List Source) : List Source → Buf → Buf
  | [], text => text
  | source :: sources, text =>
    if base.any (·.name == source.name) then addSources base sources text
    else
      addSources base sources
        ((text.add (asciis "\n# from " ++ source.name ++ asciis "\n")).add source.text)

/-- `folded_text`, up to where `strlen` finds its end. -/
def foldedText (withProfile base : List Source) (name : Bytes) : Option Bytes :=
  let text := addSources base withProfile (Buf.add { limit := configFileMax } (foldedHead name))
  if text.failed then none else some (text.bytes.takeWhile (· ≠ 0))

theorem length_add_le {b : Buf} (bytes : Bytes) (h : b.bytes.length ≤ b.limit) :
    (b.add bytes).bytes.length ≤ (b.add bytes).limit ∧ (b.add bytes).limit = b.limit := by
  unfold Buf.add
  split_ifs with hnothing hroom
  · exact ⟨h, rfl⟩
  · exact ⟨h, rfl⟩
  · simp only [List.length_append, and_true]
    omega

theorem length_addSources_le (base : List Source) : ∀ (sources : List Source) {text : Buf},
    text.bytes.length ≤ text.limit → (addSources base sources text).bytes.length ≤ text.limit
  | [], _, h => h
  | source :: sources, text, h => by
    rw [addSources]
    split_ifs
    · exact length_addSources_le base sources h
    · obtain ⟨hname, hsame⟩ :=
        length_add_le (asciis "\n# from " ++ source.name ++ asciis "\n") h
      obtain ⟨htext, hsame'⟩ := length_add_le source.text hname
      rw [← hsame, ← hsame']
      exact length_addSources_le base sources htext

theorem length_foldedText_le {withProfile base : List Source} {name folded : Bytes}
    (h : foldedText withProfile base name = some folded) : folded.length ≤ configFileMax := by
  simp only [foldedText] at h
  split_ifs at h
  cases h
  obtain ⟨hhead, hsame⟩ := length_add_le (foldedHead name)
    (show ({ limit := configFileMax } : Buf).bytes.length ≤ configFileMax by simp)
  refine le_trans (List.takeWhile_prefix _).length_le ?_
  exact (length_addSources_le base withProfile hhead).trans hsame.le

section

variable {δ : Type*}
  -- `ncfg_config_load_with_profile` and `ncfg_config_load_layered`, on the files as they are
  (load loadLayered : Disk → Except Bytes (List Source))
  -- `ncfg_config_compile_for_reading`, and `globals.profile` of a document
  (compile : List Source → Except Bytes δ) (profile : δ → Option Bytes)
  -- `ncfg_config_documents_agree` with no profile wanted
  (agrees : δ → δ → Bool)

def compiled (disk : Disk) : Option δ :=
  (load disk).toOption.bind fun sources => (compile sources).toOption

/-- What the loop of `ncfg_profile_adopt` goes by. -/
structure Fold (δ : Type*) where
  before : δ
  name : Bytes
  folded : Bytes
  kept : Bytes

/-- The host's answers to `ncfg_profile_adopt`. -/
structure Adopting where
  /-- The `open` or the `read` of the selection fails although it is there. -/
  readFault : Bool
  /-- `ncfg_host_make_directory` of `conf.d`. -/
  directory : Bool
  /-- The calls of a round, by the prefix it tries. -/
  round : Bytes → Calls
  /-- What `strerror` says of the call that fails. -/
  why : Bytes := []

/-- `ncfg_profile_adopt` up to its loop : nothing to fold where the configuration doesn't compile,
chooses no profile, or chooses it in another file. -/
def toFold (configDir : Bytes) (o : Adopting) (disk : Disk) :
    Except ProfileRefusal (Option (Fold δ)) :=
  match load disk with
  | .error said => .error (.unloaded said)
  | .ok sources =>
    match (compile sources).toOption with
    | none => .ok none
    | some before =>
      match profile before with
      | none => .ok none
      | some name =>
        match loadLayered disk with
        | .error said => .error (.unloaded said)
        | .ok base =>
          match foldedText sources base name with
          | none => .error (.tooLarge name)
          | some folded =>
            match readFile configFileMax o.readFault (disk (selectionPath configDir)) with
            | .error _ => .ok none
            | .ok kept =>
              if o.directory then .ok (some ⟨before, name, folded, kept⟩)
              else .error (.host (.directory (join configDir (asciis "conf.d")) o.why))

/-- The loop of `ncfg_profile_adopt`, with `refusal` as the round before left it. -/
def rounds (configDir : Bytes) (o : Adopting) (f : Fold δ) :
    List Bytes → Disk → ProfileRefusal → Disk × Except ProfileRefusal (Option Bytes)
  | [], disk, refusal => (disk, .error refusal)
  | pre :: rest, disk, _ =>
    let calls := o.round pre
    let path := foldedPath configDir pre f.name
    let selection := selectionPath configDir
    match calls.write path f.folded disk with
    | (disk, false) => (disk, .error (.host (.unwritten path calls.why)))
    | (disk, true) =>
      match calls.unlink selection disk with
      | (disk, .done) =>
        let after := compiled load compile disk
        if after.any (agrees f.before) then (disk, .ok (some f.name))
        else
          let disk := (calls.write selection f.kept disk).1
          let disk := (calls.unlink path disk).1
          rounds configDir o f rest disk
            (if after.isSome then .changes f.name else .uncompiled f.name)
      | (disk, _) =>
        ((calls.unlink path disk).1, .error (.host (.unremoved selection calls.why)))

/-- `ncfg_profile_adopt` : the name it returns, if any. -/
def profileAdopt (configDir : Bytes) (o : Adopting) (disk : Disk) :
    Disk × Except ProfileRefusal (Option Bytes) :=
  match toFold load loadLayered compile profile configDir o disk with
  | .error refusal => (disk, .error refusal)
  | .ok none => (disk, .ok none)
  | .ok (some f) => rounds load compile agrees configDir o f foldedPrefixes disk .unfolded

/-! ## Nothing moves, and it can be undone -/

/-- The machine is off the profile `name` : the choice is gone and one fold is new, nothing else,
and the configuration compiles to one that agrees with the one before. -/
def TakenOff (configDir name : Bytes) (before after : Disk) : Prop :=
  (∃ pre ∈ foldedPrefixes, ∃ folded, before (foldedPath configDir pre name) = .absent ∧
      after = Function.update (Function.update before (foldedPath configDir pre name)
        (.regular folded)) (selectionPath configDir) .absent) ∧
    ∃ was is, compiled load compile before = some was ∧ profile was = some name ∧
      compiled load compile after = some is ∧ agrees was is = true

/-- An adopt leaves every file as it was, or takes the machine off its profile so that a restore
puts back what every file had in it. -/
def AdoptsAndRestores (configDir : Bytes) (restoring : Calls) (before : Disk)
    (r : Disk × Except ProfileRefusal (Option Bytes)) : Prop :=
  match r.2 with
  | .ok (some name) => TakenOff load compile profile agrees configDir name before r.1 ∧
      ∀ path, ((profileRestore configDir name restoring r.1).1 path).contents =
        (before path).contents
  | _ => r.1 = before

/-- The disk with the fold at one of its positions in place of the choice. -/
def foldedAt (configDir : Bytes) (f : Fold δ) (pre : Bytes) (disk : Disk) : Disk :=
  Function.update (Function.update disk (foldedPath configDir pre f.name) (.regular f.folded))
    (selectionPath configDir) .absent

/-- The configuration compiles to one that agrees with the one before. -/
def moves (f : Fold δ) (disk : Disk) : Bool := !(compiled load compile disk).any (agrees f.before)

def Reselects (f : Fold δ) : Prop := secretNameWhy f.name = none ∧ f.kept = profileBlock f.name

/-- Neither position holds a file, and the choice can be put back : with a text of its own, where
the fold is kept, and not as a link, where it is undone. -/
def Undoable (configDir : Bytes) (f : Fold δ) (disk : Disk) : Prop :=
  let early := foldedPath configDir (asciis "05-profile-") f.name
  let late := foldedPath configDir (asciis "zz-profile-") f.name
  disk early = .absent ∧
    if moves load compile agrees f (foldedAt configDir f (asciis "05-profile-") disk) then
      disk late = .absent ∧
        if moves load compile agrees f (foldedAt configDir f (asciis "zz-profile-") disk) then
          disk (selectionPath configDir) = .regular f.kept
        else Reselects f
    else (disk late).contents = none ∧ Reselects f

/-! ## What a round and a restore come to -/

variable {load loadLayered compile profile agrees} {configDir pre name : Bytes} {o : Adopting}
  {restoring : Calls} {f : Fold δ} {disk : Disk}

theorem toFold_of {sources base : List Source} {before : δ} {folded kept : Bytes}
    (hload : load disk = .ok sources) (hcompile : (compile sources).toOption = some before)
    (hname : profile before = some name) (hbase : loadLayered disk = .ok base)
    (hfolded : foldedText sources base name = some folded)
    (hkept : readFile configFileMax o.readFault (disk (selectionPath configDir)) = .ok kept)
    (hdir : o.directory = true) :
    toFold load loadLayered compile profile configDir o disk =
      .ok (some ⟨before, name, folded, kept⟩) := by
  simp [toFold, hload, hcompile, hname, hbase, hfolded, hkept, hdir]

theorem toFold_eq_some
    (h : toFold load loadLayered compile profile configDir o disk = .ok (some f)) :
    compiled load compile disk = some f.before ∧ profile f.before = some f.name ∧
      f.folded.length ≤ configFileMax ∧
      readFile configFileMax o.readFault (disk (selectionPath configDir)) = .ok f.kept := by
  unfold toFold at h
  split at h
  case h_1 => cases h
  case h_2 sources hload =>
    split at h
    case h_1 => cases h
    case h_2 before hcompile =>
      split at h
      case h_1 => cases h
      case h_2 name hname =>
        split at h
        case h_1 => cases h
        case h_2 base _ =>
          split at h
          case h_1 => cases h
          case h_2 folded hfolded =>
            split at h
            case h_1 => cases h
            case h_2 kept hkept =>
              split_ifs at h
              cases h
              have hcompiled : compiled load compile disk = some before := by
                rw [compiled, hload, ← hcompile]
                rfl
              exact ⟨hcompiled, hname, length_foldedText_le hfolded, hkept⟩

theorem length_le_of_readFile {ceiling : ℕ} {fault : Bool} {e : Entry} {bytes : Bytes}
    (h : readFile ceiling fault e = .ok bytes) : bytes.length ≤ ceiling := by
  rw [readFile, readFile_eq_ok h] at h
  dsimp only at h
  split_ifs at h with hfault hlong
  exact not_lt.1 hlong

theorem rounds_cons {rest : List Bytes} {refusal : ProfileRefusal} (hcalls : (o.round pre).Succeed)
    (hne : foldedPath configDir pre f.name ≠ selectionPath configDir)
    (hfolded : f.folded.length ≤ configFileMax) (hkept : f.kept.length ≤ configFileMax)
    (hselected : disk (selectionPath configDir) ≠ .absent) :
    rounds load compile agrees configDir o f (pre :: rest) disk refusal =
      if moves load compile agrees f (foldedAt configDir f pre disk) then
        rounds load compile agrees configDir o f rest
          (Function.update (Function.update disk (foldedPath configDir pre f.name) .absent)
            (selectionPath configDir) (.regular f.kept))
          (if (compiled load compile (foldedAt configDir f pre disk)).isSome then .changes f.name
            else .uncompiled f.name)
      else (foldedAt configDir f pre disk, .ok (some f.name)) := by
  rw [rounds]
  dsimp only
  rw [hcalls.write hfolded]
  dsimp only
  rw [hcalls.unlink, Function.update_of_ne hne.symm, if_neg hselected]
  dsimp only
  rw [show Function.update (Function.update disk (foldedPath configDir pre f.name)
    (.regular f.folded)) (selectionPath configDir) .absent = foldedAt configDir f pre disk from rfl]
  rcases hagrees :
    (compiled load compile (foldedAt configDir f pre disk)).any (agrees f.before) with
    _ | _
  · simp only [moves, hagrees, Bool.not_false, Bool.false_eq_true, if_false, if_true]
    rw [hcalls.write hkept]
    dsimp only
    rw [hcalls.unlink, foldedAt, Function.update_idem, Function.update_comm hne,
      Function.update_idem, Function.update_comm hne.symm]
  · simp only [moves, hagrees, Bool.not_true, Bool.false_eq_true, if_false, if_true]

theorem length_le_of_usable (h : secretNameWhy name = none) : name.length ≤ 64 := by
  unfold secretNameWhy at h
  split_ifs at h
  omega

theorem length_profileBlock_le (h : secretNameWhy name = none) :
    (profileBlock name).length ≤ configFileMax := by
  have hname := length_le_of_usable h
  have hshape :
      (asciis "global \x7b\n\tprofile = \"").length = 21 ∧ (asciis "\"\n\x7d\n").length = 4 :=
    ⟨rfl, rfl⟩
  simp only [profileBlock, List.length_append, hshape.1, hshape.2, configFileMax]
  omega

theorem profileRestore_of_usable (hcalls : restoring.Succeed) (h : secretNameWhy name = none) :
    profileRestore configDir name restoring disk =
      (Function.update (Function.update (Function.update disk
          (foldedPath configDir (asciis "05-profile-") name) .absent)
          (foldedPath configDir (asciis "zz-profile-") name) .absent)
          (selectionPath configDir) (.regular (profileBlock name)), .ok ()) := by
  have hgone : ∀ path (disk : Disk) paths, removeFolded restoring (path :: paths) disk =
      removeFolded restoring paths (Function.update disk path .absent) := by
    intro path disk paths
    rw [removeFolded, hcalls.unlink]
    split_ifs <;> rfl
  rw [profileRestore, h]
  dsimp only
  simp only [foldedPrefixes, List.map_cons, List.map_nil, hgone]
  rw [removeFolded]
  dsimp only
  rw [hcalls.write (length_profileBlock_le h)]

theorem profileRestore_of_unusable (h : secretNameWhy name ≠ none) :
    (profileRestore configDir name restoring disk).1 = disk := by
  obtain ⟨why, hwhy⟩ := Option.ne_none_iff_exists'.1 h
  rw [profileRestore, hwhy]

/-! ## The undo is exact where the positions are free -/

theorem restored_iff (hcalls : restoring.Succeed) (hpre : pre ∈ foldedPrefixes)
    (hkept : (disk (selectionPath configDir)).contents = some f.kept) :
    (∀ path, ((profileRestore configDir f.name restoring (foldedAt configDir f pre disk)).1
        path).contents = (disk path).contents) ↔
      (disk (foldedPath configDir (asciis "05-profile-") f.name)).contents = none ∧
        (disk (foldedPath configDir (asciis "zz-profile-") f.name)).contents = none ∧
        Reselects f := by
  obtain ⟨hne, hearly, hlate⟩ := profile_paths_ne configDir f.name
  by_cases husable : secretNameWhy f.name = none
  swap
  · refine iff_of_false (fun h => ?_) (fun h => husable h.2.2.1)
    have hselection := h (selectionPath configDir)
    rw [profileRestore_of_unusable husable, hkept, foldedAt, Function.update_self] at hselection
    cases hselection
  rw [profileRestore_of_usable hcalls husable]
  dsimp only
  constructor
  · intro h
    refine ⟨?_, ?_, husable, ?_⟩
    · rw [← h, Function.update_of_ne hearly, Function.update_of_ne hne, Function.update_self]
      rfl
    · rw [← h, Function.update_of_ne hlate, Function.update_self]
      rfl
    · have hselection := h (selectionPath configDir)
      rw [hkept, Function.update_self] at hselection
      exact (Option.some.inj hselection).symm
  · rintro ⟨hone, hother, -, hsame⟩ path
    by_cases hselection : path = selectionPath configDir
    · rw [hselection, Function.update_self, hkept, hsame]
      rfl
    rw [Function.update_of_ne hselection]
    by_cases hpath : path = foldedPath configDir (asciis "zz-profile-") f.name
    · rw [hpath, Function.update_self, hother]
      rfl
    rw [Function.update_of_ne hpath]
    by_cases hpath' : path = foldedPath configDir (asciis "05-profile-") f.name
    · rw [hpath', Function.update_self, hone]
      rfl
    rw [Function.update_of_ne hpath', foldedAt, Function.update_of_ne hselection]
    have hne : path ≠ foldedPath configDir pre f.name := by
      simp only [foldedPrefixes, List.mem_cons, List.not_mem_nil, or_false] at hpre
      rcases hpre with rfl | rfl
      · exact hpath'
      · exact hpath
    rw [Function.update_of_ne hne]

theorem takenOff_iff (hpre : pre ∈ foldedPrefixes)
    (hcompiled : compiled load compile disk = some f.before)
    (hname : profile f.before = some f.name)
    (hagrees : moves load compile agrees f (foldedAt configDir f pre disk) = false) :
    TakenOff load compile profile agrees configDir f.name disk (foldedAt configDir f pre disk) ↔
      disk (foldedPath configDir pre f.name) = .absent := by
  obtain ⟨hne, hearly, hlate⟩ := profile_paths_ne configDir f.name
  obtain ⟨after, hafter, hsame⟩ : ∃ after,
      compiled load compile (foldedAt configDir f pre disk) = some after ∧
        agrees f.before after = true := by
    simpa [moves, Option.any_eq_true] using hagrees
  refine ⟨fun ⟨⟨pre', hpre', folded, habsent, heq⟩, _⟩ => ?_, fun h =>
    ⟨⟨pre, hpre, f.folded, h, rfl⟩, f.before, after, hcompiled, hname, hafter, hsame⟩⟩
  by_cases hsame : foldedPath configDir pre' f.name = foldedPath configDir pre f.name
  · rwa [← hsame]
  -- the fold it is said to be is not there
  have hselection : foldedPath configDir pre' f.name ≠ selectionPath configDir := by
    simp only [foldedPrefixes, List.mem_cons, List.not_mem_nil, or_false] at hpre'
    rcases hpre' with rfl | rfl
    · exact hearly
    · exact hlate
  have hat := congr_fun heq (foldedPath configDir pre' f.name)
  rw [foldedAt, Function.update_of_ne hselection, Function.update_of_ne hsame, habsent,
    Function.update_of_ne hselection, Function.update_self] at hat
  cases hat

variable (agrees) in
theorem rounds_folded (hcalls : ∀ pre ∈ foldedPrefixes, (o.round pre).Succeed)
    (hfold : toFold load loadLayered compile profile configDir o disk = .ok (some f)) :
    ∃ refusal, profileAdopt load loadLayered compile profile agrees configDir o disk =
      let late := Function.update (Function.update disk
        (foldedPath configDir (asciis "05-profile-") f.name) .absent)
        (selectionPath configDir) (.regular f.kept)
      if moves load compile agrees f (foldedAt configDir f (asciis "05-profile-") disk) then
        if moves load compile agrees f (foldedAt configDir f (asciis "zz-profile-") late) then
          (Function.update (Function.update late
            (foldedPath configDir (asciis "zz-profile-") f.name) .absent)
            (selectionPath configDir) (.regular f.kept), .error refusal)
        else (foldedAt configDir f (asciis "zz-profile-") late, .ok (some f.name))
      else (foldedAt configDir f (asciis "05-profile-") disk, .ok (some f.name)) := by
  obtain ⟨-, -, hfolded, hread⟩ := toFold_eq_some hfold
  obtain ⟨-, hearly, hlate⟩ := profile_paths_ne configDir f.name
  have hkept := length_le_of_readFile hread
  have hselected : disk (selectionPath configDir) ≠ .absent := fun habsent => by
    simpa [habsent, Entry.contents] using readFile_eq_ok hread
  rw [profileAdopt, hfold]
  dsimp only
  rw [foldedPrefixes,
    rounds_cons (hcalls _ (by simp [foldedPrefixes])) hearly hfolded hkept hselected,
    rounds_cons (hcalls _ (by simp [foldedPrefixes])) hlate hfolded hkept (by simp), rounds]
  exact ⟨_, rfl⟩

theorem not_keeps_of_taken (hcalls : ∀ pre ∈ foldedPrefixes, (o.round pre).Succeed)
    (hfold : toFold load loadLayered compile profile configDir o disk = .ok (some f))
    (htaken : disk (foldedPath configDir (asciis "05-profile-") f.name) ≠ .absent) :
    ¬AdoptsAndRestores load compile profile agrees configDir restoring disk
      (profileAdopt load loadLayered compile profile agrees configDir o disk) := by
  obtain ⟨hcompiled, hname, -⟩ := toFold_eq_some hfold
  obtain ⟨hne, hearly, hlate⟩ := profile_paths_ne configDir f.name
  obtain ⟨refusal, hadopt⟩ := rounds_folded agrees hcalls hfold
  rw [hadopt]
  dsimp only
  split_ifs with hfirst hsecond
  · intro h
    refine htaken ?_
    dsimp only [AdoptsAndRestores] at h
    rw [← congr_fun h (foldedPath configDir (asciis "05-profile-") f.name),
      Function.update_of_ne hearly, Function.update_of_ne hne, Function.update_of_ne hearly,
      Function.update_self]
  · rintro ⟨⟨⟨pre, hpre, folded, habsent, heq⟩, -⟩, -⟩
    dsimp only at heq
    have hat := congr_fun heq (foldedPath configDir (asciis "05-profile-") f.name)
    rw [foldedAt, Function.update_of_ne hearly, Function.update_of_ne hne,
      Function.update_of_ne hearly, Function.update_self, Function.update_of_ne hearly] at hat
    simp only [foldedPrefixes, List.mem_cons, List.not_mem_nil, or_false] at hpre
    rcases hpre with rfl | rfl
    · exact htaken habsent
    · rw [Function.update_of_ne hne] at hat
      exact htaken hat.symm
  · rintro ⟨htakenOff, -⟩
    exact htaken ((takenOff_iff (by simp [foldedPrefixes]) hcompiled hname
      (by simpa using hfirst)).1 htakenOff)

/-- With every call succeeding, a profile is adopted and restored where its fold is undoable. -/
theorem keeps_iff_undoable (hcalls : ∀ pre ∈ foldedPrefixes, (o.round pre).Succeed)
    (hrestoring : restoring.Succeed)
    (hfold : toFold load loadLayered compile profile configDir o disk = .ok (some f)) :
    AdoptsAndRestores load compile profile agrees configDir restoring disk
        (profileAdopt load loadLayered compile profile agrees configDir o disk) ↔
      Undoable load compile agrees configDir f disk := by
  obtain ⟨hcompiled, hname, -, hread⟩ := toFold_eq_some hfold
  obtain ⟨hne, hearly, hlate⟩ := profile_paths_ne configDir f.name
  by_cases htaken : disk (foldedPath configDir (asciis "05-profile-") f.name) = .absent
  swap
  · exact iff_of_false (not_keeps_of_taken hcalls hfold htaken) (fun h => htaken h.1)
  have hkept := readFile_eq_ok hread
  have hfree : (disk (foldedPath configDir (asciis "05-profile-") f.name)).contents = none := by
    rw [htaken]
    rfl
  -- the second round begins with what there was, but for a link
  have hlate' : foldedAt configDir f (asciis "zz-profile-")
      (Function.update (Function.update disk
        (foldedPath configDir (asciis "05-profile-") f.name) .absent)
        (selectionPath configDir) (.regular f.kept)) =
      foldedAt configDir f (asciis "zz-profile-") disk := by
    rw [← htaken, Function.update_eq_self, foldedAt, Function.update_comm hlate.symm,
      Function.update_idem, foldedAt]
  obtain ⟨refusal, hadopt⟩ := rounds_folded agrees hcalls hfold
  rw [hadopt, Undoable]
  dsimp only
  rw [hlate']
  simp only [htaken, true_and]
  split_ifs with hfirst hsecond
  · rw [AdoptsAndRestores]
    dsimp only
    rw [← htaken, Function.update_eq_self, Function.update_comm hlate.symm, Function.update_idem]
    constructor
    · intro h
      refine ⟨?_, ?_⟩
      · rw [← congr_fun h (foldedPath configDir (asciis "zz-profile-") f.name),
          Function.update_of_ne hlate, Function.update_self]
      · rw [← congr_fun h (selectionPath configDir), Function.update_self]
    · rintro ⟨habsent, hregular⟩
      rw [← habsent, Function.update_eq_self, ← hregular, Function.update_eq_self]
  · have hagrees := by simpa using hsecond
    rw [AdoptsAndRestores]
    dsimp only
    rw [takenOff_iff (by simp [foldedPrefixes]) hcompiled hname hagrees,
      restored_iff hrestoring (by simp [foldedPrefixes]) hkept]
    refine ⟨fun h => ⟨h.1, h.2.2.2⟩, fun h => ⟨h.1, hfree, ?_, h.2⟩⟩
    rw [h.1]
    rfl
  · have hagrees := by simpa using hfirst
    rw [AdoptsAndRestores]
    dsimp only
    rw [takenOff_iff (by simp [foldedPrefixes]) hcompiled hname hagrees,
      restored_iff hrestoring (by simp [foldedPrefixes]) hkept]
    exact ⟨fun h => h.2.2, fun h => ⟨htaken, hfree, h⟩⟩

/-- With every call a success, an adopt leaves the files alone or can be undone, if and only if what
the loop is tried on can be. -/
theorem profile_adopt_undone_iff (load loadLayered : Disk → Except Bytes (List Source))
    (compile : List Source → Except Bytes δ) (profile : δ → Option Bytes) (agrees : δ → δ → Bool)
    (configDir : Bytes) (o : Adopting) (restoring : Calls) (disk : Disk)
    (hcalls : ∀ pre ∈ foldedPrefixes, (o.round pre).Succeed) (hrestoring : restoring.Succeed) :
    AdoptsAndRestores load compile profile agrees configDir restoring disk
        (profileAdopt load loadLayered compile profile agrees configDir o disk) ↔
      ∀ f, toFold load loadLayered compile profile configDir o disk = .ok (some f) →
        Undoable load compile agrees configDir f disk := by
  rcases hfold : toFold load loadLayered compile profile configDir o disk with refusal | _ | f
  · simp [profileAdopt, hfold, AdoptsAndRestores]
  · simp [profileAdopt, hfold, AdoptsAndRestores]
  · simp [keeps_iff_undoable hcalls hrestoring hfold]

end

/-! ## A choice edited by hand -/

def willingCalls : Calls where
  writes _ := ⟨⟨true, true, [.took configFileMax], true, true, true⟩, false,
    ⟨true, [], true, true, true⟩⟩
  unlinks _ := true

theorem willingCalls_succeed : willingCalls.Succeed where
  writes path length h := by
    rcases length with _ | length
    · simp [willingCalls, Staging.succeeds, writeAll]
    · simp [willingCalls, Staging.succeeds, writeAll, min_eq_right h]
  unlinks _ := rfl

def willingAdopt : Adopting where
  readFault := false
  directory := true
  round _ := willingCalls

/-- A machine whose only drop-in is the choice of a profile that has no files. -/
def chosen (text : Bytes) : Disk :=
  Function.update (fun _ => .absent) (selectionPath (asciis "/etc/netcfgd")) (.regular text)

def chosenLoad (disk : Disk) : Except Bytes (List Source) :=
  match disk (selectionPath (asciis "/etc/netcfgd")) with
  | .regular text => .ok [⟨selectionPath (asciis "/etc/netcfgd"), text⟩]
  | _ => .ok []

/-- and what that compiles to, of which only the profile is kept. -/
def chosenCompile (sources : List Source) : Except Bytes (Option Bytes) :=
  .ok (if sources = [] then none else some (asciis "office"))

def officeBlock : Bytes := profileBlock (asciis "office")

theorem length_asciis (text : String) : (asciis text).length = text.length := by
  rw [asciis, List.length_map, String.length_toList]

theorem length_foldedHead (name : Bytes) :
    (foldedHead name).length = 261 + 2 * name.length := by
  rw [foldedHead]
  repeat rw [asciis_ofList]
  simp only [List.length_append, List.length_map, List.length_cons, List.length_nil]
  omega

theorem toFold_chosen {text : Bytes} (h : text.length ≤ configFileMax) :
    toFold chosenLoad chosenLoad chosenCompile id (asciis "/etc/netcfgd") willingAdopt
        (chosen text) =
      .ok (some ⟨some (asciis "office"), asciis "office",
        (foldedHead (asciis "office")).takeWhile (· ≠ 0), text⟩) := by
  have hload : chosenLoad (chosen text) =
      .ok [⟨selectionPath (asciis "/etc/netcfgd"), text⟩] := by
    simp [chosenLoad, chosen]
  have hread : readFile configFileMax false
      (chosen text (selectionPath (asciis "/etc/netcfgd"))) = .ok text := by
    simp [readFile, chosen, Entry.contents, not_lt.2 h]
  have hfolded : foldedText [⟨selectionPath (asciis "/etc/netcfgd"), text⟩]
      [⟨selectionPath (asciis "/etc/netcfgd"), text⟩] (asciis "office") =
        some ((foldedHead (asciis "office")).takeWhile (· ≠ 0)) := by
    have hlength : (foldedHead (asciis "office")).length = 273 := by
      rw [length_foldedHead, length_asciis]
      decide
    have hhead : foldedHead (asciis "office") ≠ [] := List.ne_nil_of_length_eq_add_one hlength
    simp [foldedText, addSources, Buf.add, configFileMax, hlength, hhead]
  exact toFold_of hload rfl rfl hload hfolded hread rfl

theorem moves_chosen {f : Fold (Option Bytes)} {pre : Bytes} {disk : Disk} :
    moves chosenLoad chosenCompile (fun _ after => after.isNone) f
      (foldedAt (asciis "/etc/netcfgd") f pre disk) = false := by
  simp [moves, compiled, chosenLoad, chosenCompile, foldedAt, Except.toOption]

/-- A choice with a comment of its own is put back without it. -/
theorem comment_not_restored :
    ¬AdoptsAndRestores chosenLoad chosenCompile id (fun _ after => after.isNone)
      (asciis "/etc/netcfgd") willingCalls (chosen (asciis "# until may\n" ++ officeBlock))
      (profileAdopt chosenLoad chosenLoad chosenCompile id (fun _ after => after.isNone)
        (asciis "/etc/netcfgd") willingAdopt (chosen (asciis "# until may\n" ++ officeBlock))) := by
  have hlength : (asciis "# until may\n" ++ officeBlock).length ≤ configFileMax := by
    simp only [officeBlock, profileBlock, List.length_append, length_asciis]
    decide
  rw [keeps_iff_undoable (fun _ _ => willingCalls_succeed) willingCalls_succeed
    (toFold_chosen hlength)]
  rintro ⟨-, h⟩
  rw [moves_chosen, if_neg (by simp)] at h
  have hsame : asciis "# until may\n" ++ officeBlock = officeBlock := h.2.2
  exact absurd (List.append_left_eq_self.1 hsame) (List.cons_ne_nil _ _)

/-- The choice as the code spells it is put back. -/
theorem choice_restored :
    willingCalls.Succeed ∧
      AdoptsAndRestores chosenLoad chosenCompile id (fun _ after => after.isNone)
        (asciis "/etc/netcfgd") willingCalls (chosen officeBlock)
        (profileAdopt chosenLoad chosenLoad chosenCompile id (fun _ after => after.isNone)
          (asciis "/etc/netcfgd") willingAdopt (chosen officeBlock)) := by
  refine ⟨willingCalls_succeed, ?_⟩
  rw [profile_adopt_undone_iff chosenLoad chosenLoad chosenCompile id (fun _ after => after.isNone)
    (asciis "/etc/netcfgd") willingAdopt willingCalls (chosen officeBlock)
    (fun _ _ => willingCalls_succeed) willingCalls_succeed]
  intro f hfold
  have hlength : officeBlock.length ≤ configFileMax := by
    simp only [officeBlock, profileBlock, List.length_append, length_asciis]
    decide
  rw [toFold_chosen hlength] at hfold
  cases hfold
  obtain ⟨-, hearly, hlate⟩ := profile_paths_ne (asciis "/etc/netcfgd") (asciis "office")
  refine ⟨Function.update_of_ne hearly .., ?_⟩
  rw [moves_chosen, if_neg (by simp)]
  refine ⟨?_, rfl, rfl⟩
  rw [chosen, Function.update_of_ne hlate]
  rfl

end Netcfgd.Host
