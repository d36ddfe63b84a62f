import Mathlib.Data.List.Perm.Subperm
import Netcfgd.Lower
import Netcfgd.Request

/-!
# Who can reach the control socket

`src/daemon/authorize.c` says who may ask for what, `src/daemon/peer.c` resolves the names it judges
by, and `apply_policy_permissions` of `src/daemon/server.c` leaves one mode and one group on the
socket for all of them.

A caller some tier is opened to can connect, or the log says why not, exactly where some tier is
open to anybody, or the first group named does not exist, or every user a tier is opened to is root
or the owner of the socket (`reachable_iff`) : the socket is never given to a user, and nothing is
logged of one. Nobody else can connect than the mode some principal needs lets in
(`admitted_by_needed`).
-/

namespace Netcfgd.Reach

open Compile Proto

/-! ## Names -/

/-- What `fgets` reads of a file, a line at a time into `size` bytes with a NUL at the end. -/
def readLines (size : ℕ) : List UInt8 → List UInt8 → List (List UInt8)
  | line, [] => if line = [] then [] else [line]
  | line, c :: rest =>
    if c = 10 ∨ line.length + 2 = size then (line ++ [c]) :: readLines size [] rest
    else readLines size (line ++ [c]) rest

def lineText (line : List UInt8) : List UInt8 :=
  line.takeWhile fun c => c ≠ 10 ∧ c ≠ 13 ∧ c ≠ 0

/-- `field_at`. -/
def fieldAt (line : List UInt8) (wanted : ℕ) : Option (List UInt8) :=
  (line.splitOn 58)[wanted]?

/-- `parse_id`. -/
def parseId (text : List UInt8) : Option ℕ :=
  if text = [] ∨ 10 < text.length then none
  else if text.all fun c => 48 ≤ c && c ≤ 57 then
    some (text.foldl (fun value c => value * 10 + (c - 48).toNat) 0)
  else none

/-- `lookup_id` : the first entry of the name decides. `none` is a file that cannot be read. -/
def lookupId (file : Option (List UInt8)) (name : String) (idField : ℕ) : Option ℕ :=
  if name = "" then none
  else file.bind fun content =>
    (((readLines 4096 [] content).map lineText).find? fun line =>
      fieldAt line 0 = some name.toUTF8.toList).bind fun line =>
        (fieldAt line idField).bind parseId

/-- `ncfg_authz_roots_t`, by what the files hold. -/
structure Roots where
  groupFile : Option (List UInt8)
  passwdFile : Option (List UInt8)

/-- `ncfg_peer_group_id`. -/
def Roots.groupId (roots : Roots) (name : String) : Option UInt32 :=
  (lookupId roots.groupFile name 2).map UInt32.ofNat

/-- `ncfg_peer_user_id`. -/
def Roots.userId (roots : Roots) (name : String) : Option UInt32 :=
  (lookupId roots.passwdFile name 2).map UInt32.ofNat

/-! ## Who may ask for what -/

/-- `ncfg_peer_t`, for what the gate reads. -/
structure Peer where
  uid : UInt32
  gid : UInt32
  groups : List UInt32

/-- `ncfg_peer_in_group`. -/
def Peer.inGroup (peer : Peer) (gid : UInt32) : Bool :=
  peer.gid = gid || peer.groups.contains gid

/-- `ncfg_tier_t`. -/
inductive Tier
  | observe
  | wifi
  | admin
  deriving DecidableEq, Repr

/-- `ncfg_tier_of`. -/
def tierOf : RequestKind → Tier
  | .hello | .status | .plan | .show | .explain | .monitor | .wifiStatus | .apStations | .radios
  | .probeList | .configList | .profileList | .modemList | .secretList => .observe
  | .wifiScan | .wifiConnect | .wifiDisconnect | .wifiAdd | .wifiForget | .radioSet => .wifi
  | .apply | .confirm | .revert | .reload | .profileSet | .profileSave | .hookList | .configPut
  | .probePut | .secretPut | .configDelete | .secretDelete => .admin

/-- `principal_of`. -/
def principalOf (control : Control) : Tier → Principal
  | .observe => control.observe
  | .wifi => control.wifi
  | .admin => control.admin

/-- `ncfg_authz_satisfies`. -/
def satisfies (roots : Roots) (peer : Peer) (principal : Principal) : Bool :=
  if peer.uid = 0 then true
  else match principal with
    | .root => false
    | .any => true
    | .user name => (roots.userId name).any fun uid => peer.uid = uid
    | .group name => (roots.groupId name).any peer.inGroup

/-- `ncfg_authz_check` of a request over the local socket, without the text of its refusal. -/
def authzCheck (roots : Roots) (control : Control) (peer : Peer) (request : RequestKind) : Bool :=
  satisfies roots peer (principalOf control (tierOf request))

/-! ## The socket -/

/-- What is logged of the socket. -/
inductive Entry
  | mode (mode : ℕ) (why : String)
  | groups (count : ℕ) (given : String)
  | missing (group : String)
  | refused (group why : String)
  deriving DecidableEq, Repr

/-- The socket's owner, group and mode. -/
structure Socket where
  owner : UInt32
  group : UInt32
  mode : ℕ
  deriving DecidableEq, Repr

def modeStep (mode : ℕ) : Principal → ℕ
  | .any => 0o666
  | .root => mode
  | .user _ | .group _ => if mode ≠ 0o666 then 0o660 else mode

/-- The groups after one principal : no name twice, and no more than the array has room for. -/
def groupsStep (groups : List String) : Principal → List String
  | .group name =>
    if name ≠ "" ∧ groups.length < 3 ∧ name ∉ groups then groups ++ [name] else groups
  | _ => groups

/-- The second half of `apply_policy_permissions`, on the groups named. -/
def giveGroup (roots : Roots) (chown : Option String) (s : Socket) (log : List Entry) :
    List String → Socket × List Entry
  | [] => (s, log)
  | first :: others =>
    let log := if others = [] then log else log ++ [.groups (others.length + 1) first]
    match roots.groupId first with
    | none => (s, log ++ [.missing first])
    | some gid =>
      match chown with
      | some why => (s, log ++ [.refused first why])
      | none => ({ s with group := gid }, log)

/-- `apply_policy_permissions` : `chmod` and `chown` are what the calls fail with. -/
def applyPolicyPermissions (roots : Roots) (reach : List Principal) (chmod chown : Option String)
    (s : Socket) : Socket × List Entry :=
  let mode := reach.foldl modeStep 0o600
  let groups := reach.foldl groupsStep []
  match chmod with
  | some why => giveGroup roots chown s [.mode mode why] groups
  | none => giveGroup roots chown { s with mode } [] groups

/-! ## Connecting -/

/-- A process that calls : the kernel knows all its groups, the gate those it could read. -/
structure Caller where
  peer : Peer
  groups : List UInt32
  read : peer.groups ⊆ groups

/-- Connecting takes write permission, as the owner, in the group or as anybody else. Root has
it. -/
def Socket.Admits (s : Socket) (caller : Caller) : Prop :=
  if caller.peer.uid = 0 then True
  else if caller.peer.uid = s.owner then s.mode.testBit 7 = true
  else if caller.peer.gid = s.group ∨ s.group ∈ caller.groups then s.mode.testBit 4 = true
  else s.mode.testBit 1 = true

instance (s : Socket) (caller : Caller) : Decidable (s.Admits caller) := by
  unfold Socket.Admits
  infer_instance

/-- Whom the policy lets in. -/
def reachOf (control : Control) : List Principal := [control.observe, control.wifi, control.admin]

/-- What a line of the log gives this caller as the reason it cannot connect. -/
def Entry.Explains (roots : Roots) (reach : List Principal) (caller : Caller) : Entry → Prop
  | mode _ _ => True
  | groups _ given => ∃ name gid, name ≠ given ∧ Principal.group name ∈ reach ∧
      roots.groupId name = some gid ∧ caller.peer.inGroup gid = true
  | missing _ | refused _ _ => caller.peer.uid ≠ 0

def needed (principal : Principal) : ℕ := modeStep 0o600 principal

/-- A socket that a policy has been applied to, and what was logged, are as the policy has it. -/
structure Reachable (roots : Roots) (control : Control) (after : Socket × List Entry) : Prop where
  granted : ∀ caller : Caller, (∃ request, authzCheck roots control caller.peer request = true) →
    after.1.Admits caller ∨ ∃ e ∈ after.2, e.Explains roots (reachOf control) caller
  others : ∀ caller : Caller, (∀ request, authzCheck roots control caller.peer request = false) →
    after.1.Admits caller →
    ∃ p ∈ reachOf control, ({ after.1 with mode := needed p } : Socket).Admits caller

/-- Some tier is open to anybody, or the log says that nobody can connect, or the users the tiers
are opened to are root and the owner. -/
def NoUser (roots : Roots) (control : Control) (owner : UInt32) : Prop :=
  Principal.any ∈ reachOf control ∨
    (∃ first others, (reachOf control).foldl groupsStep [] = first :: others ∧
      roots.groupId first = none) ∨
    ∀ name uid, Principal.user name ∈ reachOf control → roots.userId name = some uid →
      uid = 0 ∨ uid = owner

/-! ## The mode -/

theorem modeStep_cases (mode : ℕ) (p : Principal) :
    modeStep mode p = mode ∨ modeStep mode p = needed p := by
  cases p <;> simp only [modeStep, needed] <;> grind

theorem foldl_modeStep_cases : ∀ (reach : List Principal) (mode : ℕ),
    reach.foldl modeStep mode = mode ∨ ∃ p ∈ reach, reach.foldl modeStep mode = needed p := by
  intro reach
  induction reach with
  | nil => exact fun _ => .inl rfl
  | cons p reach ih =>
    intro mode
    obtain h | ⟨q, hq, h⟩ := ih (modeStep mode p)
    · obtain hstep | hstep := modeStep_cases mode p
      · exact .inl (h.trans hstep)
      · exact .inr ⟨p, List.mem_cons_self, h.trans hstep⟩
    · exact .inr ⟨q, List.mem_cons_of_mem _ hq, h⟩

theorem foldl_modeStep_any : ∀ (reach : List Principal) (mode : ℕ),
    reach.foldl modeStep mode = 0o666 ↔ mode = 0o666 ∨ Principal.any ∈ reach := by
  intro reach
  induction reach with
  | nil => simp
  | cons p reach ih =>
    intro mode
    rw [List.foldl_cons, ih, List.mem_cons]
    cases p <;> simp only [modeStep] <;> grind

theorem foldl_modeStep_group {reach : List Principal} (hany : Principal.any ∉ reach)
    {p : Principal} (hp : p ∈ reach) (hroot : p ≠ .root) : reach.foldl modeStep 0o600 = 0o660 := by
  have hkept : ∀ l : List Principal, Principal.any ∉ l → l.foldl modeStep 0o660 = 0o660 := by
    intro l
    induction l with
    | nil => exact fun _ => rfl
    | cons q l ih =>
      intro hl
      rw [List.mem_cons, not_or] at hl
      cases q <;> simp_all [modeStep]
  obtain ⟨before, after, rfl⟩ := List.append_of_mem hp
  rw [List.mem_append, List.mem_cons, not_or, not_or] at hany
  have hstep : modeStep (before.foldl modeStep 0o600) p = 0o660 := by
    have hbefore : before.foldl modeStep 0o600 ≠ 0o666 := by
      rw [Ne, foldl_modeStep_any]
      simp [hany.1]
    cases p <;> simp_all [modeStep]
  rw [List.foldl_append, List.foldl_cons, hstep, hkept _ hany.2.2]

/-! ## The groups -/

theorem groupsStep_subset (groups : List String) (p : Principal) :
    groups ⊆ groupsStep groups p := by
  unfold groupsStep
  split
  · split_ifs
    · exact List.subset_append_left _ _
    · exact List.Subset.refl _
  · exact List.Subset.refl _

theorem groupsStep_length (groups : List String) (p : Principal) :
    (groupsStep groups p).length ≤ groups.length + 1 := by
  unfold groupsStep
  split
  · split_ifs <;> simp
  · omega

theorem groupsStep_mem {groups : List String} {p : Principal} {name : String}
    (h : name ∈ groupsStep groups p) : name ∈ groups ∨ p = .group name := by
  unfold groupsStep at h
  split at h
  · split_ifs at h
    · simpa [or_comm, eq_comm] using h
    · exact .inl h
  · exact .inl h

theorem mem_groupsStep {groups : List String} {name : String} (hname : name ≠ "")
    (hroom : groups.length < 3) : name ∈ groupsStep groups (.group name) := by
  unfold groupsStep
  by_cases hmem : name ∈ groups
  · simp [hmem]
  · simp [hname, hroom, hmem]

theorem mem_groups_iff {control : Control} {name : String} (hname : name ≠ "") :
    name ∈ (reachOf control).foldl groupsStep [] ↔ Principal.group name ∈ reachOf control := by
  simp only [reachOf, List.foldl_cons, List.foldl_nil, List.mem_cons, List.not_mem_nil, or_false]
  constructor
  · intro h
    obtain h | h := groupsStep_mem h
    · obtain h | h := groupsStep_mem h
      · obtain h | h := groupsStep_mem h
        · cases h
        · exact .inl h.symm
      · exact .inr (.inl h.symm)
    · exact .inr (.inr h.symm)
  · have h1 := groupsStep_length [] control.observe
    have h2 := groupsStep_length (groupsStep [] control.observe) control.wifi
    rw [List.length_nil] at h1
    rintro (h | h | h)
    · refine groupsStep_subset _ _ (groupsStep_subset _ _ ?_)
      rw [← h]
      exact mem_groupsStep hname (by simp)
    · refine groupsStep_subset _ _ ?_
      rw [← h]
      exact mem_groupsStep hname (by omega)
    · rw [← h]
      exact mem_groupsStep hname (by omega)

/-! ## What is left on the socket -/

section

variable {roots : Roots} {control : Control} {s : Socket}

def modeOf (control : Control) : ℕ := (reachOf control).foldl modeStep 0o600

/-- The groups the policy names. -/
def groupsOf (control : Control) : List String := (reachOf control).foldl groupsStep []

/-- The socket once the policy is applied, and what was said of it. -/
def applied (roots : Roots) (control : Control) (s : Socket) : Socket × List Entry :=
  applyPolicyPermissions roots (reachOf control) none none s

theorem applied_eq : applied roots control s =
    giveGroup roots none { s with mode := modeOf control } [] (groupsOf control) := rfl

theorem giveGroup_fst (roots : Roots) (chown : Option String) (s : Socket) (log : List Entry)
    (groups : List String) :
    ∃ gid, (giveGroup roots chown s log groups).1 = { s with group := gid } := by
  cases groups with
  | nil => exact ⟨s.group, rfl⟩
  | cons first others =>
    simp only [giveGroup]
    cases roots.groupId first with
    | none => exact ⟨s.group, rfl⟩
    | some gid =>
      cases chown with
      | none => exact ⟨gid, rfl⟩
      | some why => exact ⟨s.group, rfl⟩

theorem applied_owner : (applied roots control s).1.owner = s.owner := by
  obtain ⟨gid, h⟩ := giveGroup_fst roots none { s with mode := modeOf control } []
    (groupsOf control)
  rw [applied_eq, h]

theorem applied_mode : (applied roots control s).1.mode = modeOf control := by
  obtain ⟨gid, h⟩ := giveGroup_fst roots none { s with mode := modeOf control } []
    (groupsOf control)
  rw [applied_eq, h]

section

variable {first : String} {others : List String} (hgroups : groupsOf control = first :: others)
include hgroups

theorem applied_missing (h : roots.groupId first = none) :
    .missing first ∈ (applied roots control s).2 := by
  rw [applied_eq, hgroups]
  simp [giveGroup, h]

theorem applied_group {gid : UInt32} (h : roots.groupId first = some gid) :
    (applied roots control s).1.group = gid := by
  rw [applied_eq, hgroups]
  simp [giveGroup, h]

theorem applied_several (h : others ≠ []) :
    .groups (others.length + 1) first ∈ (applied roots control s).2 := by
  rw [applied_eq, hgroups]
  cases hfirst : roots.groupId first <;> simp [giveGroup, h, hfirst]

end

theorem mem_applied_log {e : Entry} (h : e ∈ (applied roots control s).2) :
    ∃ first others, groupsOf control = first :: others ∧
      (e = .groups (others.length + 1) first ∨
        e = .missing first ∧ roots.groupId first = none) := by
  rw [applied_eq] at h
  cases hgroups : groupsOf control with
  | nil => simp [hgroups, giveGroup] at h
  | cons first others =>
    refine ⟨first, others, rfl, ?_⟩
    cases hfirst : roots.groupId first <;> simp [hgroups, giveGroup, hfirst] at h <;> grind

/-! ## The modes and the callers -/

theorem needed_owner (p : Principal) : (needed p).testBit 7 = true := by
  cases p <;> simp only [needed, modeStep] <;> decide

theorem modeOf_needed (control : Control) : ∃ p ∈ reachOf control, modeOf control = needed p := by
  obtain h | h := foldl_modeStep_cases (reachOf control) 0o600
  · by_cases hall : ∀ p ∈ reachOf control, p = .root
    · have hobserve : control.observe ∈ reachOf control := List.mem_cons_self
      exact ⟨_, hobserve, by rw [hall _ hobserve]; exact h⟩
    · push Not at hall
      obtain ⟨p, hp, hroot⟩ := hall
      by_cases hany : Principal.any ∈ reachOf control
      · exact ⟨_, hany, (foldl_modeStep_any _ _).mpr (.inr hany)⟩
      · rw [foldl_modeStep_group hany hp hroot] at h
        cases h
  · exact h

theorem admits_of_owner {t : Socket} {caller : Caller} (hmode : t.mode.testBit 7 = true)
    (h : caller.peer.uid = t.owner) : t.Admits caller := by
  unfold Socket.Admits
  by_cases hroot : caller.peer.uid = 0
  · rw [if_pos hroot]
    trivial
  · rw [if_neg hroot, if_pos h]
    exact hmode

theorem admits_of_any {t : Socket} {caller : Caller} (hmode : t.mode = 0o666) :
    t.Admits caller := by
  unfold Socket.Admits
  rw [hmode]
  split_ifs
  · trivial
  all_goals decide

theorem admits_of_group {t : Socket} {caller : Caller} (hmode : t.mode = 0o660)
    (h : caller.peer.inGroup t.group = true) : t.Admits caller := by
  have hin : caller.peer.gid = t.group ∨ t.group ∈ caller.groups := by
    simp only [Peer.inGroup, Bool.or_eq_true, decide_eq_true_eq, List.contains_iff_mem] at h
    exact h.imp_right fun hread => caller.read hread
  unfold Socket.Admits
  rw [hmode, if_pos hin]
  split_ifs
  · trivial
  all_goals decide

/-- A caller is granted something exactly where the policy lets it in. -/
theorem granted_iff {peer : Peer} : (∃ request, authzCheck roots control peer request = true) ↔
    ∃ p ∈ reachOf control, satisfies roots peer p = true := by
  constructor
  · rintro ⟨request, h⟩
    refine ⟨_, ?_, h⟩
    cases tierOf request <;> simp [principalOf, reachOf]
  · rintro ⟨p, hp, h⟩
    simp only [reachOf, List.mem_cons, List.not_mem_nil, or_false] at hp
    obtain rfl | rfl | rfl := hp
    exacts [⟨.hello, h⟩, ⟨.wifiScan, h⟩, ⟨.apply, h⟩]

theorem exists_fresh (ids : List UInt32) (h : ids.length ≤ 4) : ∃ gid : UInt32, gid ∉ ids := by
  by_contra hall
  push Not at hall
  have hsub : [0, 1, 2, 3, (4 : UInt32)].Subperm ids :=
    List.subperm_of_subset (by decide) fun gid _ => hall gid
  have := hsub.length_le
  simp only [List.length_cons, List.length_nil] at this
  omega

theorem groupsOf_length (control : Control) : (groupsOf control).length ≤ 3 := by
  have h1 := groupsStep_length [] control.observe
  have h2 := groupsStep_length (groupsStep [] control.observe) control.wifi
  have h3 := groupsStep_length (groupsStep (groupsStep [] control.observe) control.wifi)
    control.admin
  rw [List.length_nil] at h1
  change (groupsStep _ _).length ≤ 3
  omega

/-! ## Who can connect -/

/-- A caller the socket admits is one the mode some principal needs admits. -/
theorem admitted_by_needed (caller : Caller) (h : (applied roots control s).1.Admits caller) :
    ∃ p ∈ reachOf control,
      ({ (applied roots control s).1 with mode := needed p } : Socket).Admits caller := by
  obtain ⟨p, hp, hmode⟩ := modeOf_needed control
  refine ⟨p, hp, ?_⟩
  rw [← hmode, ← @applied_mode roots control s]
  exact h

/-- A caller the policy lets in is admitted, or what is logged says why not. -/
theorem granted_admitted (h : NoUser roots control s.owner) (caller : Caller) {p : Principal}
    (hp : p ∈ reachOf control) (hsat : satisfies roots caller.peer p = true) :
    (applied roots control s).1.Admits caller ∨
      ∃ e ∈ (applied roots control s).2, e.Explains roots (reachOf control) caller := by
  by_cases hroot : caller.peer.uid = 0
  · exact .inl (by simp [Socket.Admits, hroot])
  by_cases hany : Principal.any ∈ reachOf control
  · refine .inl (admits_of_any ?_)
    rw [applied_mode]
    exact (foldl_modeStep_any _ _).mpr (.inr hany)
  obtain h | ⟨first, others, hgroups, hfirst⟩ | husers := h
  · exact absurd h hany
  · exact .inr ⟨_, applied_missing hgroups hfirst, hroot⟩
  simp only [satisfies, if_neg hroot] at hsat
  cases p with
  | root => cases hsat
  | any => exact absurd hp hany
  | user name =>
    obtain ⟨uid, huid, heq⟩ := (Option.any_eq_true _ _).mp hsat
    rw [decide_eq_true_eq] at heq
    obtain rfl | rfl := husers name uid hp huid
    · exact absurd heq hroot
    · refine .inl (admits_of_owner ?_ (heq.trans applied_owner.symm))
      obtain ⟨q, -, hmode⟩ := modeOf_needed control
      rw [applied_mode, hmode]
      exact needed_owner q
  | group name =>
    obtain ⟨gid, hgid, hin⟩ := (Option.any_eq_true _ _).mp hsat
    have hname : name ≠ "" := by
      rintro rfl
      cases hgid
    have hmem : name ∈ groupsOf control := (mem_groups_iff hname).mpr hp
    cases hgroups : groupsOf control with
    | nil =>
      rw [hgroups] at hmem
      cases hmem
    | cons first others =>
      cases hfirst : roots.groupId first with
      | none => exact .inr ⟨_, applied_missing hgroups hfirst, hroot⟩
      | some own =>
        by_cases heq : name = first
        · subst heq
          obtain rfl : gid = own := Option.some_inj.mp (hgid.symm.trans hfirst)
          refine .inl (admits_of_group ?_ ((applied_group hgroups hfirst).symm ▸ hin))
          rw [applied_mode]
          exact foldl_modeStep_group hany hp (by simp)
        · have hothers : others ≠ [] := by
            rintro rfl
            simp [hgroups, heq] at hmem
          exact .inr ⟨_, applied_several hgroups hothers, name, gid, heq, hp, hgid, hin⟩

/-- A user the policy lets in, not root and not the owner, is shut out without a word of it. -/
theorem user_shut_out {name : String} {uid : UInt32} (hany : Principal.any ∉ reachOf control)
    (hfirst : ¬∃ first others, groupsOf control = first :: others ∧ roots.groupId first = none)
    (hp : Principal.user name ∈ reachOf control) (huid : roots.userId name = some uid)
    (hroot : uid ≠ 0) (howner : uid ≠ s.owner) :
    ∃ caller : Caller, satisfies roots caller.peer (.user name) = true ∧
      ¬(applied roots control s).1.Admits caller ∧
      ∀ e ∈ (applied roots control s).2, ¬e.Explains roots (reachOf control) caller := by
  obtain ⟨gid, hgid⟩ := exists_fresh
    ((applied roots control s).1.group :: (groupsOf control).filterMap roots.groupId) (by
      have := List.length_filterMap_le roots.groupId (groupsOf control)
      have := groupsOf_length control
      simp only [List.length_cons]
      omega)
  rw [List.mem_cons, not_or] at hgid
  refine ⟨⟨⟨uid, gid, []⟩, [], List.Subset.refl _⟩, ?_, ?_, ?_⟩
  · simp [satisfies, hroot, huid]
  · have hmode : (applied roots control s).1.mode = 0o660 :=
      applied_mode.trans (foldl_modeStep_group hany hp (by simp))
    simp [Socket.Admits, hroot, applied_owner, howner, hgid.1, hmode]
    decide
  · intro e he hexplains
    obtain ⟨first, others, hgroups, rfl | ⟨rfl, hmissing⟩⟩ := mem_applied_log he
    · obtain ⟨other, own, -, hother, hown, hin⟩ := hexplains
      have hname : other ≠ "" := by
        rintro rfl
        cases hown
      simp only [Peer.inGroup, Bool.or_eq_true, decide_eq_true_eq, List.contains_nil,
        Bool.false_eq_true, or_false] at hin
      exact hgid.2 (List.mem_filterMap.mpr ⟨other, (mem_groups_iff hname).mpr hother, hin ▸ hown⟩)
    · exact hfirst ⟨first, others, hgroups, hmissing⟩

/-- The socket lets in whoever the policy admits, or the log says why not, exactly where the policy
needs no user let in. -/
theorem reachable_iff (roots : Roots) (control : Control) (s : Socket) :
    Reachable roots control (applyPolicyPermissions roots (reachOf control) none none s) ↔
      NoUser roots control s.owner := by
  constructor
  · intro h
    by_contra hno
    unfold NoUser at hno
    push Not at hno
    obtain ⟨hany, hfirst, name, uid, hp, huid, hroot, howner⟩ := hno
    obtain ⟨caller, hsat, hout, htold⟩ := user_shut_out (s := s) hany
      (by rintro ⟨first, others, hgroups, hmissing⟩; exact hfirst first others hgroups hmissing)
      hp huid hroot howner
    obtain hin | ⟨e, he, hexplains⟩ := h.granted caller (granted_iff.mpr ⟨_, hp, hsat⟩)
    · exact hout hin
    · exact htold e he hexplains
  · intro h
    refine ⟨fun caller hgranted => ?_, fun caller _ => admitted_by_needed caller⟩
    obtain ⟨p, hp, hsat⟩ := granted_iff.mp hgranted
    exact granted_admitted h caller hp hsat

/-! ## A user who is let in and cannot get in -/

def oneUser : Roots where
  groupFile := some "root:x:0:\nalice:x:1000:\n".toUTF8.toList
  passwdFile :=
    some "root:x:0:0::/root:/bin/sh\nalice:x:1000:1000::/home/alice:/bin/sh\n".toUTF8.toList

def openedToUser : Control where
  wifi := .user "alice"

def bound : Socket where
  owner := 0
  group := 0
  mode := 0o755

/-- Her requests are granted, she cannot connect, and nothing is logged. -/
theorem user_not_reached :
    ¬Reachable oneUser openedToUser
      (applyPolicyPermissions oneUser (reachOf openedToUser) none none bound) := by
  intro h
  obtain hin | ⟨e, he, -⟩ := h.granted ⟨⟨1000, 1000, []⟩, [], List.Subset.refl _⟩
    ⟨.wifiScan, by decide +kernel⟩
  · exact absurd hin (by decide)
  · revert he
    exact List.not_mem_nil

end

end Netcfgd.Reach
