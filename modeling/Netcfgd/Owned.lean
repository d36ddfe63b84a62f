import Netcfgd.Apply

/-!
# The ownership record

`/run/netcfgd/owned.json` : what netcfgd installed and may take away. `absorb` is
`ncfg_owned_absorb`, one arm per op, and `fold` the walk of a whole journal
(`owned.c`). Each list of the record is keyed, and `OwnedState` carries that no key occurs
twice in any of them : the empty record has it and every fold keeps it.

Seen one list at a time, an op is at most one edit of a keyed list
(`edited_createdLinks` and the lemmas after it). Every edit but two replaces or removes,
so folding a journal again changes nothing in nine of the eleven lists
(`run_run_of_resets`). The two are a backend's start : it counts a restart in place, and it
leaves a backend already recorded where it is. So a fold is idempotent if and only if every
backend the journal started it also stopped (`fold_fold_iff`).
-/

namespace Netcfgd

open KeyedList

/-- `ncfg_origin_t` : who put an address or a route there. -/
inductive Origin
  | static | dhcp4 | dhcp6 | slaac | linkLocal | delegated
  deriving DecidableEq, Repr

/-- `ncfg_owned_object_t` : an address or a route netcfgd installed. -/
structure OwnedObject where
  interface : String
  /-- The address in CIDR form, or the route's destination. -/
  key : String
  origin : Origin
  deriving DecidableEq, Repr

/-- A backend netcfgd started, with what the record keeps of one. -/
structure OwnedBackend where
  kind : BackendKind
  interface : String
  running : Bool
  deriving DecidableEq, Repr

/-- `ncfg_backend_restart_t` : starts of a backend that did not stay up. -/
structure BackendRestart where
  kind : BackendKind
  interface : String
  count : ℤ
  deriving DecidableEq, Repr

/-- `ncfg_observed_hook_state_t` : what a hook was last told. -/
structure HookState where
  interface : String
  phase : HookPhase
  value : String
  deriving DecidableEq, Repr

def OwnedObject.id (o : OwnedObject) : String × String :=
  (o.interface, o.key)

def OwnedBackend.id (b : OwnedBackend) : BackendKind × String :=
  (b.kind, b.interface)

def BackendRestart.id (b : BackendRestart) : BackendKind × String :=
  (b.kind, b.interface)

def HookState.id (h : HookState) : String × HookPhase :=
  (h.interface, h.phase)

/-- `ncfg_owned_state_t`, over the type `δ` of a DNS policy, which the record keeps whole. -/
@[ext] structure OwnedLists (δ : Type*) where
  boot : Option String := none
  createdLinks : List String := []
  addresses : List OwnedObject := []
  routes : List OwnedObject := []
  backends : List OwnedBackend := []
  backendRestarts : List BackendRestart := []
  /-- The delivered scopes, each with its policy. -/
  dns : List (String × δ) := []
  forwarding : List String := []
  privacy : List String := []
  acceptRa : List String := []
  qdisc : List String := []
  ingress : List String := []
  hookState : List HookState := []

/-- No list of the record names a thing twice. -/
structure OwnedLists.Distinct {δ : Type*} (s : OwnedLists δ) : Prop where
  createdLinks : Keyed id s.createdLinks
  addresses : Keyed OwnedObject.id s.addresses
  routes : Keyed OwnedObject.id s.routes
  backends : Keyed OwnedBackend.id s.backends
  backendRestarts : Keyed BackendRestart.id s.backendRestarts
  forwarding : Keyed id s.forwarding
  privacy : Keyed id s.privacy
  acceptRa : Keyed id s.acceptRa
  qdisc : Keyed id s.qdisc
  ingress : Keyed id s.ingress
  hookState : Keyed HookState.id s.hookState

structure OwnedState (δ : Type*) extends OwnedLists δ where
  distinct : toOwnedLists.Distinct

variable {δ : Type*}

/-! ## One action -/

/-- `object_drop`. -/
def objectDrop (list : List OwnedObject) (interface key : String) : List OwnedObject :=
  drop OwnedObject.id (interface, key) list

/-- `object_put` : replace rather than append, the key being the identity. -/
def objectPut (list : List OwnedObject) (interface key : String) (origin : Origin) :
    List OwnedObject :=
  objectDrop list interface key ++ [⟨interface, key, origin⟩]

/-- `ncfg_owned_remember`. -/
def ownedRemember (list : List String) (interface : String) (ours : Bool) : List String :=
  if ours then drop id interface list ++ [interface] else drop id interface list

/-- `ncfg_owned_note_hook_state`. -/
def noteHookState (list : List HookState) (interface : String) (phase : HookPhase)
    (value : String) : List HookState :=
  drop HookState.id (interface, phase) list ++ [⟨interface, phase, value⟩]

/-- What a hook that ran is remembered to have been told : only the two phases that are
events carry a value. -/
def hookRan (list : List HookState) (interface : String) (phase : HookPhase) :
    Option String → List HookState
  | some value =>
    if phase = .lease ∨ phase = .carrier then noteHookState list interface phase value else list
  | none => list

/-- `backend_started` : already recorded is not an append. -/
def backendStarted (list : List OwnedBackend) (kind : BackendKind) (interface : String) :
    List OwnedBackend :=
  if list.any fun b => b.id = (kind, interface) then list
  else list ++ [{ kind, interface, running := true }]

/-- `backend_stopped`. -/
def backendStopped (list : List OwnedBackend) (kind : BackendKind) (interface : String) :
    List OwnedBackend :=
  drop OwnedBackend.id (kind, interface) list

/-- `restart_counted` : the count of a start, in place. -/
def restartCounted (list : List BackendRestart) (kind : BackendKind) (interface : String) :
    List BackendRestart :=
  bump BackendRestart.id { kind, interface, count := 1 } (fun b => { b with count := b.count + 1 })
    list

/-- `restart_cleared`. -/
def restartCleared (list : List BackendRestart) (kind : BackendKind) (interface : String) :
    List BackendRestart :=
  drop BackendRestart.id (kind, interface) list

/-- `ncfg_owned_absorb`. -/
def absorb (s : OwnedLists δ) : Op → OwnedLists δ
  | .linkCreate name _ => { s with createdLinks := ownedRemember s.createdLinks name true }
  | .linkDelete name => { s with createdLinks := ownedRemember s.createdLinks name false }
  | .addrAdd iface addr _ _ => { s with addresses := objectPut s.addresses iface addr .static }
  | .addrDel iface addr => { s with addresses := objectDrop s.addresses iface addr }
  | .routeAdd iface route =>
    { s with routes := objectPut s.routes iface route.destination .static }
  | .routeDel iface route => { s with routes := objectDrop s.routes iface route.destination }
  | .sysctlSetForwarding iface enabled =>
    { s with forwarding := ownedRemember s.forwarding iface enabled }
  | .sysctlSetPrivacy iface preferTemporary =>
    { s with privacy := ownedRemember s.privacy iface preferTemporary }
  -- the value that gives the interface back is 1, the kernel's default
  | .sysctlSetAcceptRa iface value =>
    { s with acceptRa := ownedRemember s.acceptRa iface (value ≠ 1) }
  | .qdiscSet iface _ _ _ => { s with qdisc := ownedRemember s.qdisc iface true }
  | .qdiscReset iface => { s with qdisc := ownedRemember s.qdisc iface false }
  | .ingressRedirect iface _ => { s with ingress := ownedRemember s.ingress iface true }
  | .ingressRedirectClear iface => { s with ingress := ownedRemember s.ingress iface false }
  | .hookRun iface phase _ value => { s with hookState := hookRan s.hookState iface phase value }
  | .backendStart kind iface =>
    { s with
      backendRestarts := restartCounted s.backendRestarts kind iface
      backends := backendStarted s.backends kind iface }
  | .backendStop kind iface =>
    { s with
      backendRestarts := restartCleared s.backendRestarts kind iface
      backends := backendStopped s.backends kind iface }
  | _ => s

/-! ## A whole journal -/

structure ObservedBackend where
  kind : BackendKind
  interface : String
  running : Bool
  deriving DecidableEq, Repr

/-- `restarts_cleared_by_running` : a backend seen running has stayed up. -/
def restartsClearedByRunning (s : OwnedLists δ) (observed : List ObservedBackend) :
    OwnedLists δ :=
  observed.foldl (fun s b =>
    if b.running then
      { s with backendRestarts := restartCleared s.backendRestarts b.kind b.interface }
    else s) s

/-- The op a record says is in effect : the action's where it is done, its inverse where it
is reverted. -/
def effectOf (actions : List Action) (r : Record) : Option Op :=
  (actionWithId actions r.id).bind fun a =>
    match r.outcome with
    | .done => some a.op
    | .reverted => a.inverse
    | _ => none

/-- Whether a record is of a `dns.apply` that reached the machine. -/
def deliversDns (actions : List Action) (r : Record) : Bool :=
  match (actionWithId actions r.id).map Action.op with
  | some (.dnsApply _) => r.outcome = .done ∨ r.outcome = .reverted
  | _ => false

/-- `fold` : what an apply did, into the record. `delivered` is what a `dns.apply` of the
journal delivered, `observed` the backends of the observation the plan was made from. -/
def fold (p : Plan) (j : Journal) (delivered : Option (List (String × δ)))
    (observed : List ObservedBackend) (s : OwnedLists δ) : OwnedLists δ :=
  let s := j.foldl (fun s r =>
    match effectOf p.actions r with
    | some op => absorb s op
    | none => s) (restartsClearedByRunning s observed)
  match delivered with
  | some scopes => if j.any (deliversDns p.actions) then { s with dns := scopes } else s
  | none => s

/-- The operations a journal says were done. -/
def effects (p : Plan) (j : Journal) : List Op :=
  j.filterMap (effectOf p.actions)

def absorbAll (ops : List Op) (s : OwnedLists δ) : OwnedLists δ :=
  ops.foldl absorb s

theorem foldl_effects (p : Plan) (j : Journal) (s : OwnedLists δ) :
    j.foldl (fun s r =>
      match effectOf p.actions r with
      | some op => absorb s op
      | none => s) s = absorbAll (effects p j) s := by
  unfold absorbAll effects
  induction j generalizing s with
  | nil => rfl
  | cons r j ih =>
    rw [List.foldl_cons, ih, List.filterMap_cons]
    cases effectOf p.actions r <;> rfl

/-! ## One list at a time -/

/-- The edit `ownedRemember` makes. -/
def rememberEdit (interface : String) (ours : Bool) : Edit (id : String → String) :=
  if ours then .put interface else .drop interface

theorem rememberEdit_apply (l : List String) (interface : String) (ours : Bool) :
    ownedRemember l interface ours = (rememberEdit interface ours).apply l := by
  cases ours <;> rfl

theorem rememberEdit_resets (interface : String) (ours : Bool) :
    (rememberEdit interface ours).resets := by
  cases ours <;> rfl

def createdLinksEdit : Op → Option (Edit (id : String → String))
  | .linkCreate name _ => some (rememberEdit name true)
  | .linkDelete name => some (rememberEdit name false)
  | _ => none

def addressesEdit : Op → Option (Edit OwnedObject.id)
  | .addrAdd iface addr _ _ => some (.put ⟨iface, addr, .static⟩)
  | .addrDel iface addr => some (.drop (iface, addr))
  | _ => none

def routesEdit : Op → Option (Edit OwnedObject.id)
  | .routeAdd iface route => some (.put ⟨iface, route.destination, .static⟩)
  | .routeDel iface route => some (.drop (iface, route.destination))
  | _ => none

def backendsEdit : Op → Option (Edit OwnedBackend.id)
  | .backendStart kind iface => some (.bump ⟨kind, iface, true⟩ id fun _ => rfl)
  | .backendStop kind iface => some (.drop (kind, iface))
  | _ => none

def backendRestartsEdit : Op → Option (Edit BackendRestart.id)
  | .backendStart kind iface =>
    some (.bump ⟨kind, iface, 1⟩ (fun b => { b with count := b.count + 1 }) fun _ => rfl)
  | .backendStop kind iface => some (.drop (kind, iface))
  | _ => none

def forwardingEdit : Op → Option (Edit (id : String → String))
  | .sysctlSetForwarding iface enabled => some (rememberEdit iface enabled)
  | _ => none

def privacyEdit : Op → Option (Edit (id : String → String))
  | .sysctlSetPrivacy iface preferTemporary => some (rememberEdit iface preferTemporary)
  | _ => none

def acceptRaEdit : Op → Option (Edit (id : String → String))
  | .sysctlSetAcceptRa iface value => some (rememberEdit iface (value ≠ 1))
  | _ => none

def qdiscEdit : Op → Option (Edit (id : String → String))
  | .qdiscSet iface _ _ _ => some (rememberEdit iface true)
  | .qdiscReset iface => some (rememberEdit iface false)
  | _ => none

def ingressEdit : Op → Option (Edit (id : String → String))
  | .ingressRedirect iface _ => some (rememberEdit iface true)
  | .ingressRedirectClear iface => some (rememberEdit iface false)
  | _ => none

def hookStateEdit : Op → Option (Edit HookState.id)
  | .hookRun iface phase _ (some value) =>
    if phase = .lease ∨ phase = .carrier then some (.put ⟨iface, phase, value⟩) else none
  | _ => none

theorem backendStarted_eq_bump (kind : BackendKind) (interface : String) :
    ∀ l : List OwnedBackend, backendStarted l kind interface =
      bump OwnedBackend.id ⟨kind, interface, true⟩ id l
  | [] => rfl
  | b :: l => by
    have ih := backendStarted_eq_bump kind interface l
    by_cases h : b.id = (kind, interface)
    · have h' : b.id = OwnedBackend.id ⟨kind, interface, true⟩ := h
      rw [bump, if_pos h', backendStarted, List.any_cons]
      simp [h]
    · have h' : b.id ≠ OwnedBackend.id ⟨kind, interface, true⟩ := h
      unfold backendStarted at ih ⊢
      rw [bump, if_neg h', ← ih, List.any_cons]
      simp only [h, decide_false, Bool.false_or]
      split_ifs <;> rfl

/-- A list of the record that absorbs each op as an edit, or not at all. -/
def Edited {α κ : Type*} [DecidableEq κ] {key : α → κ} (list : OwnedLists δ → List α)
    (edit : Op → Option (Edit key)) : Prop :=
  ∀ s op, list (absorb s op) = (edit op).elim (list s) fun e => e.apply (list s)

theorem edited_createdLinks : Edited (δ := δ) OwnedLists.createdLinks createdLinksEdit := by
  intro s op
  cases op <;> rfl

theorem edited_addresses : Edited (δ := δ) OwnedLists.addresses addressesEdit := by
  intro s op
  cases op <;> rfl

theorem edited_routes : Edited (δ := δ) OwnedLists.routes routesEdit := by
  intro s op
  cases op <;> rfl

theorem edited_backends : Edited (δ := δ) OwnedLists.backends backendsEdit := by
  intro s op
  cases op with
  | backendStart kind iface => exact backendStarted_eq_bump kind iface s.backends
  | _ => rfl

theorem edited_backendRestarts :
    Edited (δ := δ) OwnedLists.backendRestarts backendRestartsEdit := by
  intro s op
  cases op <;> rfl

theorem edited_forwarding : Edited (δ := δ) OwnedLists.forwarding forwardingEdit := by
  intro s op
  cases op with
  | sysctlSetForwarding iface enabled => exact rememberEdit_apply ..
  | _ => rfl

theorem edited_privacy : Edited (δ := δ) OwnedLists.privacy privacyEdit := by
  intro s op
  cases op with
  | sysctlSetPrivacy iface preferTemporary => exact rememberEdit_apply ..
  | _ => rfl

theorem edited_acceptRa : Edited (δ := δ) OwnedLists.acceptRa acceptRaEdit := by
  intro s op
  cases op with
  | sysctlSetAcceptRa iface value => exact rememberEdit_apply ..
  | _ => rfl

theorem edited_qdisc : Edited (δ := δ) OwnedLists.qdisc qdiscEdit := by
  intro s op
  cases op <;> rfl

theorem edited_ingress : Edited (δ := δ) OwnedLists.ingress ingressEdit := by
  intro s op
  cases op <;> rfl

theorem edited_hookState : Edited (δ := δ) OwnedLists.hookState hookStateEdit := by
  intro s op
  cases op with
  | hookRun iface phase path value =>
    cases value with
    | none => rfl
    | some value =>
      simp only [absorb, hookRan, hookStateEdit]
      split_ifs <;> rfl
  | _ => rfl

section Edited

variable {α κ : Type*} [DecidableEq κ] {key : α → κ} {list : OwnedLists δ → List α}
  {edit : Op → Option (Edit key)}

theorem Edited.absorbAll (h : Edited list edit) (ops : List Op) (s : OwnedLists δ) :
    list (absorbAll ops s) = run (ops.filterMap edit) (list s) := by
  induction ops generalizing s with
  | nil => rfl
  | cons op ops ih =>
    have hs : list (Netcfgd.absorbAll (op :: ops) s) =
        run (ops.filterMap edit) (list (absorb s op)) := ih (absorb s op)
    rw [hs, h s op, List.filterMap_cons]
    cases edit op <;> rfl

theorem Edited.keyed (h : Edited list edit) {s : OwnedLists δ} (hs : Keyed key (list s)) (op : Op) :
    Keyed key (list (absorb s op)) := by
  rw [h s op]
  cases edit op with
  | none => exact hs
  | some e => exact e.keyed_apply hs

end Edited

theorem absorb_distinct {s : OwnedLists δ} (h : s.Distinct) (op : Op) : (absorb s op).Distinct where
  createdLinks := edited_createdLinks.keyed h.createdLinks op
  addresses := edited_addresses.keyed h.addresses op
  routes := edited_routes.keyed h.routes op
  backends := edited_backends.keyed h.backends op
  backendRestarts := edited_backendRestarts.keyed h.backendRestarts op
  forwarding := edited_forwarding.keyed h.forwarding op
  privacy := edited_privacy.keyed h.privacy op
  acceptRa := edited_acceptRa.keyed h.acceptRa op
  qdisc := edited_qdisc.keyed h.qdisc op
  ingress := edited_ingress.keyed h.ingress op
  hookState := edited_hookState.keyed h.hookState op

theorem absorbAll_distinct :
    ∀ (ops : List Op) {s : OwnedLists δ}, s.Distinct → (absorbAll ops s).Distinct
  | [], _, h => h
  | op :: ops, _, h => absorbAll_distinct ops (absorb_distinct h op)

theorem restartsClearedByRunning_distinct :
    ∀ (observed : List ObservedBackend) {s : OwnedLists δ}, s.Distinct →
      (restartsClearedByRunning s observed).Distinct
  | [], _, h => h
  | b :: observed, s, h => by
    refine restartsClearedByRunning_distinct observed ?_
    dsimp only
    by_cases hr : b.running
    · rw [if_pos hr]
      exact { h with
        backendRestarts := (Edit.drop (b.kind, b.interface)).keyed_apply h.backendRestarts }
    · rwa [if_neg hr]

/-- A fold keeps the keys apart. -/
theorem fold_distinct (p : Plan) (j : Journal) (delivered : Option (List (String × δ)))
    (observed : List ObservedBackend) {s : OwnedLists δ} (h : s.Distinct) :
    (fold p j delivered observed s).Distinct := by
  have habs := absorbAll_distinct (effects p j) (restartsClearedByRunning_distinct observed h)
  unfold fold
  rw [foldl_effects]
  cases delivered with
  | none => exact habs
  | some scopes =>
    dsimp only
    split_ifs
    · exact { habs with }
    · exact habs

namespace OwnedState

def empty : OwnedState δ where
  boot := none
  distinct := by constructor <;> exact keyed_nil _

/-- `fold`, on a record. -/
def fold (s : OwnedState δ) (p : Plan) (j : Journal) (delivered : Option (List (String × δ)))
    (observed : List ObservedBackend) : OwnedState δ where
  toOwnedLists := Netcfgd.fold p j delivered observed s.toOwnedLists
  distinct := fold_distinct p j delivered observed s.distinct

theorem eq_iff {s t : OwnedState δ} : s = t ↔ s.toOwnedLists = t.toOwnedLists := by
  constructor
  · rintro rfl
    rfl
  · intro h
    cases s
    cases t
    simpa using h

end OwnedState

/-! ## Folding a journal twice -/

theorem fold_eq (p : Plan) (j : Journal) (delivered : Option (List (String × δ)))
    (s : OwnedLists δ) : ∃ dns, fold p j delivered [] s =
      { absorbAll (effects p j) s with dns := dns } := by
  unfold fold
  rw [foldl_effects]
  cases delivered with
  | none => exact ⟨_, rfl⟩
  | some scopes =>
    dsimp only
    split_ifs
    · exact ⟨scopes, rfl⟩
    · exact ⟨_, rfl⟩

theorem absorb_dns (s : OwnedLists δ) (op : Op) : (absorb s op).dns = s.dns := by
  cases op <;> rfl

theorem absorb_boot (s : OwnedLists δ) (op : Op) : (absorb s op).boot = s.boot := by
  cases op <;> rfl

theorem absorbAll_dns : ∀ (ops : List Op) (s : OwnedLists δ), (absorbAll ops s).dns = s.dns
  | [], _ => rfl
  | op :: ops, s => (absorbAll_dns ops (absorb s op)).trans (absorb_dns s op)

theorem absorbAll_boot : ∀ (ops : List Op) (s : OwnedLists δ), (absorbAll ops s).boot = s.boot
  | [], _ => rfl
  | op :: ops, s => (absorbAll_boot ops (absorb s op)).trans (absorb_boot s op)

theorem fold_dns (p : Plan) (j : Journal) (delivered : Option (List (String × δ)))
    (s : OwnedLists δ) : (fold p j delivered [] (fold p j delivered [] s)).dns =
      (fold p j delivered [] s).dns := by
  unfold fold
  rw [foldl_effects, foldl_effects]
  cases delivered with
  | none => simp [restartsClearedByRunning, absorbAll_dns]
  | some scopes =>
    dsimp only
    split_ifs <;> simp [restartsClearedByRunning, absorbAll_dns]

theorem Edited.fold {α κ : Type*} [DecidableEq κ] {key : α → κ} {list : OwnedLists δ → List α}
    {edit : Op → Option (Edit key)} (h : Edited list edit)
    (hdns : ∀ s dns, list { s with dns := dns } = list s) (p : Plan) (j : Journal)
    (delivered : Option (List (String × δ))) (s : OwnedLists δ) :
    list (fold p j delivered [] s) = run ((effects p j).filterMap edit) (list s) := by
  obtain ⟨dns, hf⟩ := fold_eq p j delivered s
  rw [hf, hdns, h.absorbAll]

/-- The count of a backend's starts, zero where the record has none. -/
def restartCount (l : List BackendRestart) (k : BackendKind × String) : ℤ :=
  ((find BackendRestart.id k l).map BackendRestart.count).getD 0

/-- How often a backend was started. -/
def starts (k : BackendKind × String) (ops : List Op) : ℕ :=
  ops.countP fun op => op = .backendStart k.1 k.2

theorem restartCount_absorbAll (k : BackendKind × String) :
    ∀ (ops : List Op), .backendStop k.1 k.2 ∉ ops → ∀ {s : OwnedLists δ}, s.Distinct →
      restartCount (absorbAll ops s).backendRestarts k =
        restartCount s.backendRestarts k + starts k ops
  | [], _, s, _ => by simp [absorbAll, starts]
  | op :: ops, hstop, s, hs => by
    rw [List.mem_cons, not_or] at hstop
    have ih := restartCount_absorbAll k ops hstop.2 (absorb_distinct hs op)
    have hop : restartCount (absorb s op).backendRestarts k =
        restartCount s.backendRestarts k + if op = .backendStart k.1 k.2 then 1 else 0 := by
      rw [edited_backendRestarts s op]
      cases op with
      | backendStart kind iface =>
        simp only [backendRestartsEdit, Option.elim_some, restartCount,
          Edit.find_apply _ k hs.backendRestarts, Edit.target, BackendRestart.id]
        by_cases hk : (kind, iface) = k
        · subst hk
          cases find BackendRestart.id (kind, iface) s.backendRestarts <;> simp [Edit.value]
        · have hne : ¬(kind = k.1 ∧ iface = k.2) := fun h => hk (Prod.ext h.1 h.2)
          simp [hk, hne]
      | backendStop kind iface =>
        have hk : (kind, iface) ≠ k := by
          rintro rfl
          exact hstop.1 rfl
        simp [backendRestartsEdit, restartCount, Edit.find_apply _ k hs.backendRestarts,
          Edit.target, hk]
      | _ => simp [backendRestartsEdit]
    have hcons : absorbAll (op :: ops) s = absorbAll ops (absorb s op) := rfl
    rw [hcons, ih, hop, starts, starts, List.countP_cons]
    by_cases h : op = .backendStart k.1 k.2
    · simp only [h, decide_true, if_true]
      push_cast
      ring
    · simp [h]

/-- A journal that stops each backend it starts. -/
def StopsWhatItStarts (ops : List Op) : Prop :=
  ∀ kind iface, .backendStart kind iface ∈ ops → .backendStop kind iface ∈ ops

theorem target_mem_of_stops {α : Type*} {key : α → BackendKind × String}
    {edit : Op → Option (Edit key)}
    (hedit : ∀ op, ∀ e ∈ edit op, ∃ kind iface, e.target = (kind, iface) ∧
      (op = .backendStart kind iface ∨ op = .backendStop kind iface))
    (hstop : ∀ kind iface, edit (.backendStop kind iface) = some (.drop (kind, iface)))
    {ops : List Op} (h : StopsWhatItStarts ops) :
    ∀ op ∈ ops, ∀ e ∈ edit op, e.target ∈ resetKeys (ops.filterMap edit) := by
  intro op hop e he
  obtain ⟨kind, iface, ht, hstart⟩ := hedit op e he
  have hmem : .backendStop kind iface ∈ ops := by
    rcases hstart with rfl | rfl
    · exact h kind iface hop
    · exact hop
  rw [ht]
  exact mem_resetKeys (List.mem_filterMap.2 ⟨_, hmem, hstop kind iface⟩) rfl

theorem backendsEdit_target (op : Op) : ∀ e ∈ backendsEdit op, ∃ kind iface,
    e.target = (kind, iface) ∧ (op = .backendStart kind iface ∨ op = .backendStop kind iface) := by
  cases op <;> simp [backendsEdit, Edit.target, OwnedBackend.id]

theorem backendRestartsEdit_target (op : Op) : ∀ e ∈ backendRestartsEdit op, ∃ kind iface,
    e.target = (kind, iface) ∧ (op = .backendStart kind iface ∨ op = .backendStop kind iface) := by
  cases op <;> simp [backendRestartsEdit, Edit.target, BackendRestart.id]

theorem createdLinksEdit_resets (op : Op) : ∀ e ∈ createdLinksEdit op, e.resets := by
  cases op <;> simp [createdLinksEdit, rememberEdit_resets]

theorem addressesEdit_resets (op : Op) : ∀ e ∈ addressesEdit op, e.resets := by
  cases op <;> simp [addressesEdit, Edit.resets]

theorem routesEdit_resets (op : Op) : ∀ e ∈ routesEdit op, e.resets := by
  cases op <;> simp [routesEdit, Edit.resets]

theorem forwardingEdit_resets (op : Op) : ∀ e ∈ forwardingEdit op, e.resets := by
  cases op <;> simp [forwardingEdit, rememberEdit_resets]

theorem privacyEdit_resets (op : Op) : ∀ e ∈ privacyEdit op, e.resets := by
  cases op <;> simp [privacyEdit, rememberEdit_resets]

theorem acceptRaEdit_resets (op : Op) : ∀ e ∈ acceptRaEdit op, e.resets := by
  cases op <;> simp [acceptRaEdit, rememberEdit_resets]

theorem qdiscEdit_resets (op : Op) : ∀ e ∈ qdiscEdit op, e.resets := by
  cases op <;> simp [qdiscEdit, rememberEdit_resets]

theorem ingressEdit_resets (op : Op) : ∀ e ∈ ingressEdit op, e.resets := by
  cases op <;> simp [ingressEdit, rememberEdit_resets]

theorem hookStateEdit_resets (op : Op) : ∀ e ∈ hookStateEdit op, e.resets := by
  cases op with
  | hookRun iface phase path value =>
    cases value with
    | none => simp [hookStateEdit]
    | some value =>
      simp only [hookStateEdit]
      split_ifs <;> simp [Edit.resets]
  | _ => simp [hookStateEdit]

section Twice

variable {α κ : Type*} [DecidableEq κ] {key : α → κ} {list : OwnedLists δ → List α}
  {edit : Op → Option (Edit key)}

theorem Edited.fold_fold (h : Edited list edit)
    (hdns : ∀ s dns, list { s with dns := dns } = list s) {p : Plan} {j : Journal}
    (hops : ∀ op ∈ effects p j, ∀ e ∈ edit op,
      e.target ∈ resetKeys ((effects p j).filterMap edit))
    (delivered : Option (List (String × δ))) {s : OwnedLists δ} (hs : Keyed key (list s)) :
    list (Netcfgd.fold p j delivered [] (Netcfgd.fold p j delivered [] s)) =
      list (Netcfgd.fold p j delivered [] s) := by
  rw [h.fold hdns, h.fold hdns]
  refine run_run_of_resets (fun e he => ?_) hs
  obtain ⟨op, hop, heq⟩ := List.mem_filterMap.1 he
  exact hops op hop e heq

theorem Edited.fold_fold_of_resets (h : Edited list edit)
    (hdns : ∀ s dns, list { s with dns := dns } = list s) (hr : ∀ op, ∀ e ∈ edit op, e.resets)
    (p : Plan) (j : Journal) (delivered : Option (List (String × δ))) {s : OwnedLists δ}
    (hs : Keyed key (list s)) :
    list (Netcfgd.fold p j delivered [] (Netcfgd.fold p j delivered [] s)) =
      list (Netcfgd.fold p j delivered [] s) :=
  h.fold_fold hdns (fun op hop e he =>
    mem_resetKeys (List.mem_filterMap.2 ⟨op, hop, he⟩) (hr op e he)) delivered hs

end Twice

theorem fold_boot (p : Plan) (j : Journal) (delivered : Option (List (String × δ)))
    (s : OwnedLists δ) : (fold p j delivered [] s).boot = s.boot := by
  obtain ⟨dns, hf⟩ := fold_eq p j delivered s
  rw [hf]
  exact absorbAll_boot _ s

/-- A fold is idempotent where what is started is also stopped. -/
theorem fold_fold_of_stops {p : Plan} {j : Journal} (h : StopsWhatItStarts (effects p j))
    (delivered : Option (List (String × δ))) {s : OwnedLists δ} (hs : s.Distinct) :
    fold p j delivered [] (fold p j delivered [] s) = fold p j delivered [] s := by
  ext1
  case boot => rw [fold_boot]
  case createdLinks =>
    exact edited_createdLinks.fold_fold_of_resets (fun _ _ => rfl) createdLinksEdit_resets
      p j delivered hs.createdLinks
  case addresses =>
    exact edited_addresses.fold_fold_of_resets (fun _ _ => rfl) addressesEdit_resets
      p j delivered hs.addresses
  case routes =>
    exact edited_routes.fold_fold_of_resets (fun _ _ => rfl) routesEdit_resets
      p j delivered hs.routes
  case backends =>
    exact edited_backends.fold_fold (fun _ _ => rfl)
      (target_mem_of_stops backendsEdit_target (fun _ _ => rfl) h) delivered hs.backends
  case backendRestarts =>
    exact edited_backendRestarts.fold_fold (fun _ _ => rfl)
      (target_mem_of_stops backendRestartsEdit_target (fun _ _ => rfl) h) delivered
      hs.backendRestarts
  case dns => exact fold_dns p j delivered s
  case forwarding =>
    exact edited_forwarding.fold_fold_of_resets (fun _ _ => rfl) forwardingEdit_resets
      p j delivered hs.forwarding
  case privacy =>
    exact edited_privacy.fold_fold_of_resets (fun _ _ => rfl) privacyEdit_resets
      p j delivered hs.privacy
  case acceptRa =>
    exact edited_acceptRa.fold_fold_of_resets (fun _ _ => rfl) acceptRaEdit_resets
      p j delivered hs.acceptRa
  case qdisc =>
    exact edited_qdisc.fold_fold_of_resets (fun _ _ => rfl) qdiscEdit_resets
      p j delivered hs.qdisc
  case ingress =>
    exact edited_ingress.fold_fold_of_resets (fun _ _ => rfl) ingressEdit_resets
      p j delivered hs.ingress
  case hookState =>
    exact edited_hookState.fold_fold_of_resets (fun _ _ => rfl) hookStateEdit_resets
      p j delivered hs.hookState

/-- Every start is counted, at every fold. -/
theorem restartCount_fold (p : Plan) (j : Journal) (delivered : Option (List (String × δ)))
    {k : BackendKind × String} (hk : .backendStop k.1 k.2 ∉ effects p j) {s : OwnedLists δ}
    (hs : s.Distinct) : restartCount (fold p j delivered [] s).backendRestarts k =
      restartCount s.backendRestarts k + starts k (effects p j) := by
  obtain ⟨dns, hf⟩ := fold_eq p j delivered s
  rw [hf]
  exact restartCount_absorbAll k _ hk hs

/-- Folding a journal into the record a second time leaves the record of the first fold if
and only if every backend the journal started it also stopped. -/
theorem fold_fold_iff (p : Plan) (j : Journal) (delivered : Option (List (String × δ)))
    (s : OwnedState δ) :
    (s.fold p j delivered []).fold p j delivered [] = s.fold p j delivered [] ↔
      StopsWhatItStarts (effects p j) := by
  rw [OwnedState.eq_iff]
  constructor
  · intro heq kind iface hstart
    by_contra hstop
    have hs := fold_distinct p j delivered [] s.distinct
    have h₂ := restartCount_fold p j delivered (k := (kind, iface)) hstop hs
    have hcount : 0 < starts (kind, iface) (effects p j) :=
      List.countP_pos_iff.2 ⟨_, hstart, by simp⟩
    have hsame : fold p j delivered [] (fold p j delivered [] s.toOwnedLists) =
        fold p j delivered [] s.toOwnedLists := heq
    rw [hsame] at h₂
    omega
  · intro h
    exact fold_fold_of_stops h delivered s.distinct

def startedPlan : Plan :=
  Plan.empty.add (.backendStart .dhcp4 "eth0") ⟨some "eth0", "addressing[0]", "dhcp4", "<absent>"⟩
    [] (some (.backendStop .dhcp4 "eth0"))

/-- The first fold counts one restart and the second counts it again. -/
theorem fold_startedPlan_not_idempotent :
    let j := (apply (⟨fun s _ => (.ok (), s)⟩ : Executor Unit) startedPlan ()).1
    let once := (OwnedState.empty : OwnedState Unit).fold startedPlan j none []
    once.fold startedPlan j none [] ≠ once := by
  intro j once h
  have hcount := congrArg (fun s : OwnedState Unit => s.backendRestarts) h
  revert hcount
  decide

end Netcfgd
