import Netcfgd.Address
import Netcfgd.Build
import Netcfgd.Firewall
import Netcfgd.Refusing

/-!
# Policy routing rules

A `rule` block (`src/compile/lower_rule.c`) names a priority, and the kernel keeps one rule for
each family and priority. `ncfg_plan_rules` (`src/plan/rule.c`) replaces a rule at a wanted priority
where it is netcfgd's, warns where it is not, and removes what netcfgd holds at priorities no block
asks for.

Nothing keeps two blocks from one priority. `planRules_sound_iff` says when a plan goes through
and settles : `Agrees`, for every priority that two blocks share. What is removed is netcfgd's
either way.
-/

namespace Netcfgd.Rules

open Netcfgd.Compile (Value Item asString asBool asU32 asInterfaceName take takeOrClear overItems)
open Reconcile

/-! ## Rules -/

/-- `ncfg_rule_family_t`. -/
inductive Family
  | inet | inet6
  deriving DecidableEq, Repr

/-- `ncfg_rule_family_name`. -/
def Family.word : Family → String
  | inet => "inet"
  | inet6 => "inet6"

/-- `ncfg_rule_action_t`. -/
inductive Action
  | lookup | blackhole | unreachable | prohibit
  deriving DecidableEq, Repr

/-- `ncfg_rule_action_name`. -/
def Action.word : Action → String
  | lookup => "lookup"
  | blackhole => "blackhole"
  | unreachable => "unreachable"
  | prohibit => "prohibit"

/-- What a rule of the document and one of the kernel both say. -/
structure Body where
  priority : ℤ
  family : Family := .inet
  /-- `from`. -/
  fromAddress : Option String := none
  /-- `to`. -/
  toAddress : Option String := none
  iif : Option String := none
  oif : Option String := none
  fwmark : Option ℤ := none
  fwmask : Option ℤ := none
  table : Option ℤ := none
  action : Action := .lookup
  suppressPrefixlength : Option ℤ := none
  l3mdev : Bool := false
  invert : Bool := false
  deriving DecidableEq, Repr

def Body.key (b : Body) : Family × ℤ := (b.family, b.priority)

/-- `ncfg_routing_rule_t`. -/
structure RoutingRule extends Body where
  id : String
  deriving DecidableEq, Repr

/-- `ncfg_observed_rule_t`. -/
structure ObservedRule extends Body where
  ownership : Ownership
  deriving DecidableEq, Repr

/-! ## Lowering -/

/-- `rule_selector`. -/
def ruleSelector (v : Value) : Except String String :=
  (asString v).map fun text => (Address.canonical text).getD text

/-- A `rule` block as it is read. -/
structure RuleKeys where
  rule : Body := { priority := 0 }
  priority : Option ℤ := none
  actionNamed : Bool := false

/-- The word of a `family`. -/
def familyOf (name : String) : Except String Family :=
  if name = "inet" ∨ name = "ipv4" then .ok .inet
  else if name = "inet6" ∨ name = "ipv6" then .ok .inet6
  else .error ("`" ++ name ++ "` is not an address family: one of inet, inet6")

/-- `ncfg_rule_action_from_name`. -/
def actionOf (name : String) : Option Action :=
  [Action.lookup, .blackhole, .unreachable, .prohibit].find? fun a => a.word = name

/-- The `action` key. -/
def actionKey (k : RuleKeys) (v : Value) : RuleKeys × List String :=
  match asString v with
  | .error why => (k, [why])
  | .ok name =>
    match actionOf name with
    | some action => ({ k with actionNamed := true, rule := { k.rule with action } }, [])
    | none =>
      ({ k with actionNamed := true },
        ["`" ++ name ++ "` is not a rule action: one of lookup, blackhole, unreachable, prohibit"])

/-- One item of a `rule` block. -/
def ruleItem (k : RuleKeys) : Item → RuleKeys × List String
  | .block head _ _ _ => (k, ["`" ++ head ++ "` is not valid inside `rule`"])
  | .assignment key v =>
    if key = "family" then
      take k (asString v >>= familyOf) fun family => { k with rule := { k.rule with family } }
    else if key = "priority" then take k (asU32 v) fun n => { k with priority := some n }
    else if key = "from" then
      takeOrClear (ruleSelector v) fun s => { k with rule := { k.rule with fromAddress := s } }
    else if key = "to" then
      takeOrClear (ruleSelector v) fun s => { k with rule := { k.rule with toAddress := s } }
    else if key = "iif" then
      takeOrClear (asInterfaceName v) fun s => { k with rule := { k.rule with iif := s } }
    else if key = "oif" then
      takeOrClear (asInterfaceName v) fun s => { k with rule := { k.rule with oif := s } }
    else if key = "fwmark" then
      take k (asU32 v) fun n => { k with rule := { k.rule with fwmark := some n } }
    else if key = "fwmask" then
      take k (asU32 v) fun n => { k with rule := { k.rule with fwmask := some n } }
    else if key = "lookup" ∨ key = "table" then
      take k (asU32 v) fun n => { k with rule := { k.rule with table := some n } }
    else if key = "suppress_prefixlength" then
      take k (asU32 v) fun n => { k with rule := { k.rule with suppressPrefixlength := some n } }
    else if key = "invert" then
      take k (asBool v) fun b => { k with rule := { k.rule with invert := b } }
    else if key = "l3mdev" then
      take k (asBool v) fun b => { k with rule := { k.rule with l3mdev := b } }
    else if key = "action" then actionKey k v
    else (k, ["unknown rule key `" ++ key ++ "`"])
  | _ => (k, [])

/-- `rule_is_complete` : what is wrong with a rule, or its priority. -/
def ruleIsComplete (label : String) (k : RuleKeys) : Except String ℤ :=
  match k.priority with
  | none =>
    .error ("rule `" ++ label ++ "` has no `priority`: add `priority = N`; lower is consulted " ++
      "first, and leaving it to the kernel means two applies can order the rules differently")
  | some priority =>
    if k.rule.l3mdev ∧ k.rule.table.isSome then
      .error ("rule `" ++ label ++ "` is `l3mdev` and also names a table: the VRF the interface " ++
        "is enslaved to supplies the table, so drop the `lookup`")
    else if k.rule.action = .lookup ∧ k.rule.table = none ∧ ¬k.rule.l3mdev then
      .error ("rule `" ++ label ++ "` looks up no table and names no action: " ++
        if k.actionNamed then "`action = \"lookup\"` needs a `lookup = N`"
        else "add `lookup = N`, or an `action` of blackhole, unreachable or prohibit")
    else if k.rule.fwmask.isSome ∧ k.rule.fwmark = none then
      .error ("rule `" ++ label ++ "` has an `fwmask` but no `fwmark`")
    else .ok priority

/-- `ncfg_lower_rule`. -/
def lowerRule (label : Option String) (items : List Item) : Option RoutingRule × List String :=
  match label with
  | none => (none, ["`rule` needs a name"])
  | some label =>
    let (k, wrong) := overItems ruleItem {} items
    match ruleIsComplete label k with
    | .ok priority => (some { k.rule with id := label, priority }, wrong)
    | .error why => (none, wrong ++ [why])

/-- The rules of a document : its `rule` blocks in turn, where nothing is wrong with them. -/
def lowerRules (blocks : List (Option String × List Item)) :
    Except (List String) (List RoutingRule) :=
  let lowered := blocks.map fun b => lowerRule b.1 b.2
  if lowered.flatMap Prod.snd = [] then .ok (lowered.filterMap Prod.fst)
  else .error (lowered.flatMap Prod.snd)

/-- `compare_rule`, as an order. -/
def ruleLe (one other : RoutingRule) : Bool :=
  one.priority < other.priority ∨ one.priority = other.priority ∧
    (one.family.word < other.family.word ∨ one.family.word = other.family.word ∧ one.id ≤ other.id)

def canonicalRules (rules : List RoutingRule) : List RoutingRule :=
  rules.insertionSort fun one other => ruleLe one other

/-! ## Comparing -/

/-- `same_address`. -/
def sameAddress : Option String → Option String → Bool
  | some left, some right => addressEqual valueCodec left right
  | none, none => true
  | _, _ => false

/-- `same_rule`. -/
def sameRule (desired observed : Body) : Bool :=
  sameAddress desired.fromAddress observed.fromAddress &&
    sameAddress desired.toAddress observed.toAddress &&
    desired.iif = observed.iif && desired.oif = observed.oif &&
    desired.fwmark = observed.fwmark && desired.fwmask = observed.fwmask &&
    desired.action = observed.action &&
    desired.suppressPrefixlength = observed.suppressPrefixlength &&
    desired.l3mdev = observed.l3mdev && desired.invert = observed.invert &&
    -- a lookup names a table, and the other actions do not
    (desired.action ≠ .lookup || desired.table = observed.table)

/-! ## The pass -/

/-- `rule.add` and `rule.del`. -/
inductive RuleOp
  | add (rule : RoutingRule)
  | del (rule : RoutingRule)
  deriving DecidableEq, Repr

def RuleOp.op : RuleOp → Op
  | add rule => .ruleAdd rule.priority
  | del rule => .ruleDel rule.priority

structure RuleAction where
  op : RuleOp
  reason : Reason
  inverse : Option RuleOp := none

/-- `to_desired`. -/
def toDesired (observed : ObservedRule) : RoutingRule :=
  { observed.toBody with
    id := "observed-" ++ observed.family.word ++ "-" ++ toString observed.priority }

/-- A number as `%#llx` writes it. -/
def hexText (n : ℤ) : String :=
  if n = 0 then "0" else "0x" ++ String.ofList (Nat.toDigits 16 n.toNat)

/-- `describe`. -/
def describe (rule : RoutingRule) : String :=
  let selector (label : String) (value : Option String) : String :=
    value.elim "" fun text => label ++ " " ++ text ++ " "
  toString rule.priority ++ " " ++ selector "from" rule.fromAddress ++
    selector "to" rule.toAddress ++ selector "iif" rule.iif ++ selector "oif" rule.oif ++
    rule.fwmark.elim "" (fun mark => "fwmark " ++ hexText mark ++ " ") ++ rule.action.word ++
    rule.table.elim "" fun table => " " ++ toString table

variable (rules : List RoutingRule) (observed : List ObservedRule)

def current (rule : RoutingRule) : Option ObservedRule :=
  observed.find? fun held => held.key = rule.key

/-- What the forward pass asks for a rule, with the rule at its key. -/
def forwardOver (rule : RoutingRule) : Option ObservedRule → List RuleAction
  | none => [⟨.add rule, ⟨none, "rules." ++ rule.id, describe rule, "<absent>"⟩, some (.del rule)⟩]
  | some held =>
    let reason : Reason :=
      ⟨none, "rules." ++ rule.id, describe rule, "a different rule at this priority"⟩
    if sameRule rule.toBody held.toBody then []
    else if held.ownership.mayRemove then
      [⟨.del (toDesired held), reason, none⟩, ⟨.add rule, reason, some (.del rule)⟩]
    else []

def forward (rule : RoutingRule) : List RuleAction :=
  forwardOver rule (current observed rule)

def teardown (held : ObservedRule) : List RuleAction :=
  if held.ownership.mayRemove = true ∧ ∀ rule ∈ rules, rule.key ≠ held.key then
    [⟨.del (toDesired held), ⟨none, "rules", "<absent>", describe (toDesired held)⟩,
      some (.add (toDesired held))⟩]
  else []

/-- `ncfg_plan_rules` : the actions that no lock stops. -/
def planRules (c : Checks) : List RuleAction :=
  (rules.flatMap (forward observed) ++ observed.flatMap (teardown rules)).filter fun a =>
    (c.refusalOf a.op.op a.reason).isNone

/-! ## The kernel -/

def added (rule : RoutingRule) : ObservedRule :=
  { rule.toBody with ownership := .ours }

abbrev heldKey (held : ObservedRule) : Family × ℤ := held.key

/-- What an op changes of the rules : an add puts a rule at its key, and a delete takes away what
is there. -/
def RuleOp.change : RuleOp → Change ObservedRule (Family × ℤ)
  | .add rule => .add (added rule)
  | .del rule => .remove rule.key

def changes (actions : List RuleAction) : List (Change ObservedRule (Family × ℤ)) :=
  actions.map fun a => a.op.change

def carriedOut (observed : List ObservedRule) (actions : List RuleAction) : List ObservedRule :=
  (changes actions).foldl (Change.apply heldKey) observed

/-! ## Rules that say the same -/

def addressForm (text : String) : String ⊕ String :=
  (valueCodec.canonical text).elim (.inr text) .inl

theorem addressEqual_iff {left right : String} :
    addressEqual valueCodec left right = true ↔ addressForm left = addressForm right := by
  unfold addressEqual addressForm
  cases hl : valueCodec.canonical left <;> cases hr : valueCodec.canonical right <;> simp
  all_goals
    rintro rfl
    simp [hl] at hr

/-- What a rule is compared by : its selectors and its action, and its table where the action
looks one up. -/
def form (b : Body) : (Option (String ⊕ String) × Option (String ⊕ String)) × Body :=
  ((b.fromAddress.map addressForm, b.toAddress.map addressForm),
    { b with
      priority := 0
      family := .inet
      fromAddress := none
      toAddress := none
      table := if b.action = .lookup then b.table else none })

theorem sameAddress_iff {left right : Option String} :
    sameAddress left right = true ↔ left.map addressForm = right.map addressForm := by
  cases left <;> cases right <;> simp [sameAddress, addressEqual_iff]

theorem sameRule_iff {desired observed : Body} :
    sameRule desired observed = true ↔ form desired = form observed := by
  simp only [sameRule, Bool.and_eq_true, sameAddress_iff, decide_eq_true_eq, Bool.or_eq_true, form,
    Prod.mk.injEq, Body.mk.injEq, true_and]
  by_cases haction : desired.action = observed.action
  · by_cases hlookup : observed.action = .lookup <;> simp [haction, hlookup] <;> tauto
  · simp [haction]

/-! ## One key -/

/-- The rules that want one key. -/
def wantedAt (rules : List RoutingRule) (k : Family × ℤ) : List RoutingRule :=
  rules.filter fun rule => rule.key = k

/-- The rules that share a priority agree on what it is to hold : the kernel holds a rule there,
and that one is not netcfgd's, or all of them are that rule, or all of them are one other. -/
def AgreesAt (rules : List RoutingRule) (observed : List ObservedRule) (k : Family × ℤ) : Prop :=
  ∃ held ∈ observed, held.key = k ∧
    (held.ownership.mayRemove = false ∨
      (∀ rule ∈ wantedAt rules k, sameRule rule.toBody held.toBody) ∨
      ∀ rule ∈ wantedAt rules k, ∀ rule' ∈ wantedAt rules k, sameRule rule.toBody rule'.toBody)

/-- Every priority is wanted by one rule at most, or locked, or its rules agree. -/
def Agrees (c : Checks) (rules : List RoutingRule) (observed : List ObservedRule) : Prop :=
  ∀ k, (wantedAt rules k).length ≤ 1 ∨ (c.lockOn (.ruleAdd k.2)).isSome ∨ AgreesAt rules observed k

/-- What a plan is to do : it meets no refusal, what it removes is netcfgd's, and after it there is
nothing to plan. -/
structure Settles (c : Checks) (rules : List RoutingRule) (observed : List ObservedRule) :
    Prop where
  accepted : ¬Refuses heldKey observed (changes (planRules rules observed c))
  removes : ∀ a ∈ planRules rules observed c, ∀ rule, a.op = .del rule →
    ∃ held ∈ observed, held.ownership.mayRemove ∧ rule = toDesired held
  quiet : planRules rules (carriedOut observed (planRules rules observed c)) c = []

section One

variable (c : Checks) {rules : List RoutingRule} {observed : List ObservedRule} {k : Family × ℤ}

def RuleAction.key (a : RuleAction) : Family × ℤ := a.op.change.at heldKey

theorem refusalOf_isNone (a : RuleAction) :
    (c.refusalOf a.op.op a.reason).isNone = (c.lockOn (.ruleAdd a.key.2)).isNone := by
  have hlock : c.lockOn a.op.op = c.lockOn (.ruleAdd a.key.2) := by
    unfold RuleAction.key
    cases a.op with
    | add rule => rfl
    | del rule => rfl
  have hguard : c.guardOn a.op.op = none := by
    unfold Checks.guardOn
    cases a.op <;> simp only [RuleOp.op, Op.interface, Option.bind_none] <;> exact ite_self _
  rw [Checks.refusalOf, hlock, hguard]
  cases c.lockOn (.ruleAdd a.key.2) <;> rfl

theorem forwardOver_cases (rule : RoutingRule) (held : ObservedRule) :
    forwardOver rule (some held) = [] ∧
        (sameRule rule.toBody held.toBody = true ∨ held.ownership.mayRemove = false) ∨
      (sameRule rule.toBody held.toBody = false ∧ held.ownership.mayRemove = true) ∧
        ∃ reason, forwardOver rule (some held) =
          [⟨.del (toDesired held), reason, none⟩, ⟨.add rule, reason, some (.del rule)⟩] := by
  unfold forwardOver
  dsimp only
  split_ifs with hsame hours
  · exact .inl ⟨rfl, .inl hsame⟩
  · exact .inr ⟨⟨by simpa using hsame, hours⟩, _, rfl⟩
  · exact .inl ⟨rfl, .inr (by simpa using hours)⟩

theorem key_of_mem_forward (rule : RoutingRule) :
    ∀ a ∈ forward observed rule, a.key = rule.key := by
  intro a ha
  unfold forward at ha
  cases hcurrent : current observed rule with
  | none =>
    rw [hcurrent] at ha
    obtain rfl := List.mem_singleton.1 ha
    rfl
  | some held =>
    have hkey : held.key = rule.key := by simpa using List.find?_some hcurrent
    rw [hcurrent] at ha
    rcases forwardOver_cases rule held with ⟨hnil, -⟩ | ⟨-, reason, hreplace⟩
    · rw [hnil] at ha
      cases ha
    · rw [hreplace] at ha
      simp only [List.mem_cons, List.not_mem_nil, or_false] at ha
      rcases ha with rfl | rfl
      · exact hkey
      · rfl

theorem key_of_mem_teardown (held : ObservedRule) :
    ∀ a ∈ teardown rules held, a.key = heldKey held := by
  intro a ha
  unfold teardown at ha
  split_ifs at ha
  · obtain rfl := List.mem_singleton.1 ha
    rfl
  · cases ha

theorem current_eq {rule : RoutingRule} (hk : rule.key = k) :
    current observed rule = (observed.filter fun held => heldKey held = k).head? := by
  rw [current, List.head?_filter]
  subst hk
  rfl

def actionsAt (rules : List RoutingRule) (k : Family × ℤ) (here : List ObservedRule) :
    List RuleAction :=
  ((wantedAt rules k).flatMap fun rule => forwardOver rule here.head?) ++
    here.flatMap (teardown rules)

theorem planRules_at (k : Family × ℤ) : (planRules rules observed c).filter (fun a => a.key = k) =
    if (c.lockOn (.ruleAdd k.2)).isSome then []
    else actionsAt rules k (observed.filter fun held => heldKey held = k) := by
  have hswap : (planRules rules observed c).filter (fun a => a.key = k) =
      ((rules.flatMap (forward observed) ++ observed.flatMap (teardown rules)).filter
        fun a => a.key = k).filter fun _ => (c.lockOn (.ruleAdd k.2)).isNone := by
    rw [planRules, List.filter_filter, List.filter_filter]
    refine List.filter_congr fun a _ => ?_
    rw [refusalOf_isNone]
    by_cases hk : a.key = k <;> simp [hk]
  have hforward : (wantedAt rules k).flatMap (forward observed) =
      (wantedAt rules k).flatMap fun rule =>
        forwardOver rule (observed.filter fun held => heldKey held = k).head? := by
    refine List.flatMap_congr fun rule hrule => ?_
    rw [forward, current_eq (by simpa using (List.mem_filter.1 hrule).2)]
  rw [hswap, List.filter_append, filter_flatMap_key key_of_mem_forward,
    filter_flatMap_key key_of_mem_teardown, ← wantedAt, hforward, actionsAt]
  cases c.lockOn (.ruleAdd k.2) <;> simp

theorem carriedOut_at (actions : List RuleAction) (k : Family × ℤ) :
    (carriedOut observed actions).filter (fun held => heldKey held = k) =
      carriedOut (observed.filter fun held => heldKey held = k)
        (actions.filter fun a => a.key = k) := by
  have h := @filter_foldl_apply _ _ _ heldKey (fun k' => decide (k' = k)) (changes actions)
    observed
  rw [carriedOut, h, carriedOut, changes, changes, List.filter_map]
  rfl

theorem planRules_eq_nil : planRules rules observed c = [] ↔
    ∀ k, (planRules rules observed c).filter (fun a => a.key = k) = [] := by
  constructor
  · intro h k
    rw [h, List.filter_nil]
  · intro h
    rw [List.eq_nil_iff_forall_not_mem]
    intro a ha
    have := List.filter_eq_nil_iff.1 (h a.key) a ha
    simp at this

end One

/-! ## What a key comes to -/

section Key

variable {rules : List RoutingRule} {observed : List ObservedRule} {k : Family × ℤ}

theorem refuses_adds : ∀ wanted : List RoutingRule, (∀ rule ∈ wanted, rule.key = k) →
    (Refuses heldKey [] (wanted.map fun rule => .add (added rule)) ↔ ¬wanted.length ≤ 1)
  | [], _ => by simp
  | [_], _ => by simp [refuses_cons, Change.Taken]
  | rule :: rule' :: rest, h => by
    have hsame : heldKey (added rule) = heldKey (added rule') :=
      (h rule (by simp)).trans (h rule' (by simp)).symm
    simp [refuses_cons, Change.Taken, Change.apply, install, hsame]

/-- A rule that is taken away is followed by the one that is wanted in its place. -/
def replace (held : ObservedRule) (rule : RoutingRule) : List (Change ObservedRule (Family × ℤ)) :=
  [.remove held.key, .add (added rule)]

theorem run_replace (held : ObservedRule) : ∀ (wanted : List RoutingRule) {here : ObservedRule},
    here.key = held.key → (∀ rule ∈ wanted, rule.key = held.key) →
    ¬Refuses heldKey [here] (wanted.flatMap (replace held)) ∧
      (wanted.flatMap (replace held)).foldl (Change.apply heldKey) [here] =
        [(wanted.getLast?.map added).getD here]
  | [], _, _, _ => by simp
  | rule :: wanted, here, hhere, h => by
    have hstep : Change.apply heldKey [here] (.remove held.key) = [] := by
      simp [Change.apply, uninstall, heldKey, hhere]
    have hadd : Change.apply heldKey [] (.add (added rule)) = [added rule] := by
      simp [Change.apply, install]
    have hadded : (added rule).key = held.key := h rule (by simp)
    obtain ⟨hnot, hrun⟩ :=
      run_replace held wanted hadded fun rule' hrule' => h rule' (by simp [hrule'])
    simp only [List.flatMap_cons, replace, List.cons_append, List.nil_append, refuses_cons, hstep,
      hadd, List.foldl_cons, Change.Taken, List.not_mem_nil, false_and, exists_false, false_or]
    refine ⟨hnot, hrun.trans ?_⟩
    cases wanted with
    | nil => rfl
    | cons rule' rest =>
      rw [List.getLast?_cons_cons]
      simp [List.getLast?_eq_some_getLast (List.cons_ne_nil rule' rest)]

end Key

/-- What a plan does at a key : `Settles`, there. -/
def SettlesAt (c : Checks) (rules : List RoutingRule) (observed : List ObservedRule)
    (k : Family × ℤ) : Prop :=
  let actions := (planRules rules observed c).filter fun a => a.key = k
  ¬Refuses heldKey (observed.filter fun held => heldKey held = k) (changes actions) ∧
    (planRules rules (carriedOut observed (planRules rules observed c)) c).filter
      (fun a => a.key = k) = []

variable {held : ObservedRule}

theorem changes_forwardOver (hours : held.ownership.mayRemove = true) :
    ∀ wanted : List RoutingRule,
      changes (wanted.flatMap fun rule => forwardOver rule (some held)) =
        (wanted.filter fun rule => !sameRule rule.toBody held.toBody).flatMap (replace held)
  | [] => rfl
  | rule :: wanted => by
    have ih := changes_forwardOver hours wanted
    rw [changes] at ih ⊢
    rw [List.flatMap_cons, List.map_append, ih, List.filter_cons]
    rcases forwardOver_cases rule held with ⟨hnil, hsame | hnot⟩ | ⟨⟨hsame, -⟩, reason, hreplace⟩
    · simp [hnil, hsame]
    · simp [hours] at hnot
    · rw [hreplace, if_pos (by simp [hsame])]
      rfl

theorem forwardOver_eq_nil (hours : held.ownership.mayRemove = true) {wanted : List RoutingRule} :
    (wanted.flatMap fun rule => forwardOver rule (some held)) = [] ↔
      ∀ rule ∈ wanted, sameRule rule.toBody held.toBody = true := by
  rw [List.flatMap_eq_nil_iff]
  refine forall₂_congr fun rule _ => ?_
  rcases forwardOver_cases rule held with ⟨hnil, hsame | hnot⟩ | ⟨⟨hsame, -⟩, reason, hreplace⟩
  · simp [hnil, hsame]
  · simp [hours] at hnot
  · simp [hreplace, hsame]

theorem teardown_eq_nil {rules : List RoutingRule} {rule : RoutingRule}
    (hrule : rule ∈ wantedAt rules held.key) : teardown rules held = [] := by
  obtain ⟨hmem, hkey⟩ := List.mem_filter.1 hrule
  rw [teardown, if_neg]
  rintro ⟨-, hnone⟩
  exact hnone rule hmem (by simpa using hkey)

theorem key_of_mem_wantedAt {rules : List RoutingRule} {k : Family × ℤ} {rule : RoutingRule}
    (h : rule ∈ wantedAt rules k) : rule.key = k := by
  simpa using (List.mem_filter.1 h).2

theorem actionsAt_eq_nil {rules : List RoutingRule} {k : Family × ℤ}
    (hk : held.key = k) (hours : held.ownership.mayRemove = true)
    (hwanted : wantedAt rules k ≠ []) :
    actionsAt rules k [held] = [] ↔
      ∀ rule ∈ wantedAt rules k, sameRule rule.toBody held.toBody = true := by
  obtain ⟨rule, hrule⟩ := List.exists_mem_of_ne_nil _ hwanted
  rw [actionsAt, List.flatMap_singleton, teardown_eq_nil (hk ▸ hrule), List.append_nil,
    List.head?_cons, forwardOver_eq_nil hours]

theorem sameRule_refl (b : Body) : sameRule b b = true := sameRule_iff.2 rfl

theorem settles_free {rules : List RoutingRule} {k : Family × ℤ} :
    ¬Refuses heldKey [] (changes (actionsAt rules k [])) ∧
        actionsAt rules k (carriedOut [] (actionsAt rules k [])) = [] ↔
      (wantedAt rules k).length ≤ 1 := by
  have hchanges : changes (actionsAt rules k []) =
      (wantedAt rules k).map fun rule => .add (added rule) := by
    simp [actionsAt, changes, forwardOver, RuleOp.change, ← List.map_eq_flatMap]
  rw [carriedOut, hchanges, refuses_adds _ fun _ => key_of_mem_wantedAt, not_not,
    and_iff_left_iff_imp]
  intro hlength
  rcases hwanted : wantedAt rules k with _ | ⟨rule, _ | ⟨rule', rest⟩⟩
  · simp [actionsAt, hwanted]
  · have hmem : rule ∈ wantedAt rules k := by simp [hwanted]
    have hkey : (added rule).key = k := key_of_mem_wantedAt hmem
    refine (actionsAt_eq_nil hkey rfl (by simp [hwanted])).2 fun r hr => ?_
    rw [hwanted, List.mem_singleton] at hr
    exact hr ▸ sameRule_refl _
  · simp [hwanted] at hlength

theorem settles_ours {rules : List RoutingRule} {k : Family × ℤ}
    (hk : held.key = k) (hours : held.ownership.mayRemove = true) :
    ¬Refuses heldKey [held] (changes (actionsAt rules k [held])) ∧
        actionsAt rules k (carriedOut [held] (actionsAt rules k [held])) = [] ↔
      (wantedAt rules k).length ≤ 1 ∨
        (∀ rule ∈ wantedAt rules k, sameRule rule.toBody held.toBody) ∨
        ∀ rule ∈ wantedAt rules k, ∀ rule' ∈ wantedAt rules k,
          sameRule rule.toBody rule'.toBody := by
  by_cases hwanted : wantedAt rules k = []
  · have hchanges : changes (actionsAt rules k [held]) = [.remove held.key] := by
      have hteardown : teardown rules held =
          [⟨.del (toDesired held), ⟨none, "rules", "<absent>", describe (toDesired held)⟩,
            some (.add (toDesired held))⟩] := by
        rw [teardown, if_pos]
        refine ⟨hours, fun rule hrule hkey => ?_⟩
        have : rule ∈ wantedAt rules k := List.mem_filter.2 ⟨hrule, by simpa [hk] using hkey⟩
        simp [hwanted] at this
      simp [actionsAt, hwanted, hteardown, changes, RuleOp.change, toDesired]
    have hgone : carriedOut [held] (actionsAt rules k [held]) = [] := by
      rw [carriedOut, hchanges]
      simp [Change.apply, uninstall]
    rw [hgone, hchanges]
    simp [refuses_cons, Change.Taken, actionsAt, hwanted]
  · obtain ⟨first, hfirst⟩ := List.exists_mem_of_ne_nil _ hwanted
    have hchanges : changes (actionsAt rules k [held]) =
        ((wantedAt rules k).filter fun rule => !sameRule rule.toBody held.toBody).flatMap
          (replace held) := by
      rw [actionsAt, List.flatMap_singleton, teardown_eq_nil (hk ▸ hfirst), List.append_nil]
      exact changes_forwardOver hours _
    obtain ⟨hnot, hrun⟩ := run_replace held
      ((wantedAt rules k).filter fun rule => !sameRule rule.toBody held.toBody) rfl
      fun rule hrule => (key_of_mem_wantedAt (List.mem_filter.1 hrule).1).trans hk.symm
    rw [carriedOut, hchanges, hrun, and_iff_right hnot]
    rcases hlast : ((wantedAt rules k).filter
        fun rule => !sameRule rule.toBody held.toBody).getLast? with _ | last
    · -- every wanted rule is the one that is held
      have hall : ∀ rule ∈ wantedAt rules k, sameRule rule.toBody held.toBody = true := by
        simpa using List.getLast?_eq_none_iff.1 hlast
      rw [hlast, Option.map_none, Option.getD_none, actionsAt_eq_nil hk hours hwanted]
      exact iff_of_true hall (.inr (.inl hall))
    · obtain ⟨hmem, hnotsame⟩ := List.mem_filter.1 (List.mem_of_getLast? hlast)
      have hdiffer : sameRule last.toBody held.toBody = false := by simpa using hnotsame
      have hkey : (added last).key = k := key_of_mem_wantedAt hmem
      rw [hlast, Option.map_some, Option.getD_some, actionsAt_eq_nil hkey rfl hwanted]
      constructor
      · intro hall
        refine .inr (.inr fun rule hrule rule' hrule' => ?_)
        exact sameRule_iff.2 ((sameRule_iff.1 (hall rule hrule)).trans
          (sameRule_iff.1 (hall rule' hrule')).symm)
      · rintro (hlength | hall | hall) rule hrule
        · obtain ⟨only, honly⟩ := List.length_eq_one_iff.1
            (le_antisymm hlength (List.length_pos_of_mem hmem))
          rw [honly, List.mem_singleton] at hrule hmem
          rw [hrule, hmem]
          exact sameRule_refl _
        · simp [hall last hmem] at hdiffer
        · exact hall rule hrule last hmem

/-- A key settles where it is wanted once, locked, or agreed on. -/
theorem settlesAt_iff (c : Checks) (rules : List RoutingRule) {observed : List ObservedRule}
    (hone : (observed.map heldKey).Nodup) (k : Family × ℤ) :
    SettlesAt c rules observed k ↔ (wantedAt rules k).length ≤ 1 ∨
      (c.lockOn (.ruleAdd k.2)).isSome ∨ AgreesAt rules observed k := by
  unfold SettlesAt
  dsimp only
  rw [planRules_at, planRules_at, carriedOut_at, planRules_at]
  by_cases hlocked : (c.lockOn (.ruleAdd k.2)).isSome
  · simp [hlocked, changes]
  · simp only [hlocked, Bool.false_eq_true, if_false, false_or]
    rcases filter_key_cases hone k with hfree | ⟨held, hheld⟩
    · rw [hfree, settles_free]
      refine ⟨Or.inl, ?_⟩
      rintro (hlength | ⟨held, hmem, hkey, -⟩)
      · exact hlength
      · exact absurd (List.filter_eq_nil_iff.1 hfree held hmem) (by simpa using hkey)
    · have hmem : held ∈ observed.filter fun held => heldKey held = k := by simp [hheld]
      obtain ⟨hmem, hkey⟩ := List.mem_filter.1 hmem
      have hkey : held.key = k := by simpa using hkey
      have hagrees : AgreesAt rules observed k ↔ held.ownership.mayRemove = false ∨
          (∀ rule ∈ wantedAt rules k, sameRule rule.toBody held.toBody) ∨
          ∀ rule ∈ wantedAt rules k, ∀ rule' ∈ wantedAt rules k,
            sameRule rule.toBody rule'.toBody := by
        refine ⟨?_, fun h => ⟨held, hmem, hkey, h⟩⟩
        rintro ⟨held', hmem', hkey', h⟩
        have : held' ∈ observed.filter fun held => heldKey held = k :=
          List.mem_filter.2 ⟨hmem', by simpa using hkey'⟩
        rw [hheld, List.mem_singleton] at this
        rwa [this] at h
      rw [hheld, hagrees]
      by_cases hours : held.ownership.mayRemove = true
      · rw [settles_ours hkey hours]
        simp [hours]
      · have hours : held.ownership.mayRemove = false := by simpa using hours
        have hnone : actionsAt rules k [held] = [] := by
          have hforward : ∀ rule, forwardOver rule (some held) = [] := fun rule =>
            (forwardOver_cases rule held).elim And.left fun h => by simp [hours] at h
          simp [actionsAt, hforward, teardown, hours]
        simp [hnone, hours, changes, carriedOut]

theorem removes_ours (c : Checks) (rules : List RoutingRule) (observed : List ObservedRule) :
    ∀ a ∈ planRules rules observed c, ∀ rule, a.op = .del rule →
      ∃ held ∈ observed, held.ownership.mayRemove ∧ rule = toDesired held := by
  intro a ha rule hop
  rcases List.mem_append.1 (List.mem_filter.1 ha).1 with ha | ha
  · obtain ⟨wanted, -, ha⟩ := List.mem_flatMap.1 ha
    unfold forward at ha
    cases hcurrent : current observed wanted with
    | none =>
      rw [hcurrent] at ha
      obtain rfl := List.mem_singleton.1 ha
      cases hop
    | some held =>
      rw [hcurrent] at ha
      rcases forwardOver_cases wanted held with ⟨hnil, -⟩ | ⟨⟨-, hours⟩, reason, hreplace⟩
      · rw [hnil] at ha
        cases ha
      · rw [hreplace] at ha
        simp only [List.mem_cons, List.not_mem_nil, or_false] at ha
        rcases ha with rfl | rfl
        · exact ⟨held, List.mem_of_find?_eq_some hcurrent, hours, (RuleOp.del.inj hop).symm⟩
        · cases hop
  · obtain ⟨held, hheld, ha⟩ := List.mem_flatMap.1 ha
    unfold teardown at ha
    split_ifs at ha with hours
    · obtain rfl := List.mem_singleton.1 ha
      exact ⟨held, hheld, hours.1, (RuleOp.del.inj hop).symm⟩
    · cases ha

/-- A plan settles exactly where every key does. -/
theorem settles_iff_at {c : Checks} {rules : List RoutingRule} {observed : List ObservedRule} :
    Settles c rules observed ↔ ∀ k, SettlesAt c rules observed k := by
  constructor
  · rintro ⟨haccepted, -, hquiet⟩ k
    refine ⟨fun hrefuses => haccepted (refuses_iff.2 ⟨k, ?_⟩), (planRules_eq_nil c).1 hquiet k⟩
    rwa [changes, List.filter_map]
  · intro h
    refine ⟨fun hrefuses => ?_, removes_ours c rules observed,
      (planRules_eq_nil c).2 fun k => (h k).2⟩
    obtain ⟨k, hk⟩ := refuses_iff.1 hrefuses
    rw [changes, List.filter_map] at hk
    exact (h k).1 hk

/-- A plan goes through and settles where the rules that share a priority agree. -/
theorem rules_settle_iff (c : Checks) (rules : List RoutingRule) {observed : List ObservedRule}
    (hone : (observed.map heldKey).Nodup) : Settles c rules observed ↔ Agrees c rules observed :=
  settles_iff_at.trans (forall_congr' fun k => settlesAt_iff c rules hone k)

def unchecked : Checks := ⟨[], [], [], [], []⟩

/-- Two rules that share a priority and say the same, over a rule of netcfgd's that says something
else and one no rule asks for : the plan replaces the first twice and removes the second. -/
theorem twins_settle :
    let rules : List RoutingRule := [{ priority := 100, table := some 200, id := "guest" },
      { priority := 100, table := some 200, id := "office" }]
    let observed : List ObservedRule := [{ priority := 100, table := some 254, ownership := .ours },
      { priority := 300, table := some 254, ownership := .ours }]
    (planRules rules observed unchecked).length = 5 ∧ Settles unchecked rules observed := by
  refine ⟨by decide +kernel, (rules_settle_iff unchecked _ (by decide)).2 fun k => ?_⟩
  by_cases hk : k = (.inet, 100)
  · subst hk
    exact .inr (.inr ⟨_, List.mem_cons_self, rfl, .inr (.inr (by decide +kernel))⟩)
  · have hnone : wantedAt [{ priority := 100, table := some 200, id := "guest" },
        { priority := 100, table := some 200, id := "office" }] k = [] := by
      simp [wantedAt, Body.key, Ne.symm hk]
    simp [hnone]

/-- Two `rule` blocks at one priority. -/
def sharedPriority : List (Option String × List Item) :=
  [(some "office", [.assignment "priority" (.number 100), .assignment "lookup" (.number 200)]),
    (some "guest", [.assignment "priority" (.number 100), .assignment "lookup" (.number 300)])]

/-- Two blocks may name one priority, and the second rule is then refused. -/
theorem second_rule_refused :
    ¬∀ c blocks rules observed, lowerRules blocks = .ok rules → (observed.map heldKey).Nodup →
      Settles c (canonicalRules rules) observed := by
  intro h
  have hrules : lowerRules sharedPriority =
      .ok [{ priority := 100, table := some 200, id := "office" },
        { priority := 100, table := some 300, id := "guest" }] := rfl
  have hsettles := settles_iff_at.1 (h unchecked sharedPriority _ [] hrules (by simp)) (.inet, 100)
  rcases (settlesAt_iff unchecked _ (by simp) _).1 hsettles with hlength | hlock | hagrees
  · revert hlength
    decide +kernel
  · simp [unchecked, Checks.lockOn] at hlock
  · obtain ⟨held, hheld, -⟩ := hagrees
    cases hheld

end Netcfgd.Rules
