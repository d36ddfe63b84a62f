import Netcfgd.FirewallWritten

/-!
# The firewall in the kernel means what is written

A file's `firewall`, from its text to the table the builder makes of it (`MeansWritten`) : each
written rule becomes rules of the kernel that stand together and in the written order, a packet
meets the written rule exactly where one of them runs to a verdict, and that verdict is the rule's ;
so each chain gives a packet the verdict of its first written rule that matches, or its policy.

That holds of a file that compiles and is built exactly where no list that is written in a rule is
empty (`meansWritten_iff`). A list that ends up empty, an empty `port` or a host list nobody
filled, is lowered to no constraint at all, and the rule then applies to every packet
(`unfilled_list_accepts_everything`).
-/

namespace Netcfgd.Compile

open Schedule Nftables Nft

/-! ## The written firewall -/

structure WrittenRule where
  name : String
  action : Action
  items : List Item

def writtenRule : Item → Option WrittenRule
  | .block head (some name) _ items => (ruleAction head).map fun action => ⟨name, action, items⟩
  | _ => none

structure WrittenChain where
  policy : ChainPolicy
  rules : List WrittenRule

def chainItems (hook : ChainName) : Item → Option (List Item)
  | .block head _ _ items => if chainOf head = some hook then some items else none
  | _ => none

/-- The items of the `firewall` block. -/
def firewallItems (b : MergedBlock) : Option (List Item) :=
  if b.head = "firewall" then some b.items else none

def hostListItems (name : String) (b : MergedBlock) : Option (List Item) :=
  if b.head = "host_list" ∧ b.label = some name then some b.items else none

def chainWritten (items : List Item) : WrittenChain where
  policy :=
    ((keyValue "policy" items).bind fun v => (asString v >>= policyOf).toOption).getD .accept
  rules := items.filterMap writtenRule

/-- The chain of a file : one that is not written accepts, and has no rules. -/
def writtenChain (file : List Item) (hook : ChainName) : WrittenChain :=
  chainWritten (((lastSome firewallItems (merge file).1).bind (lastSome (chainItems hook))).getD [])

/-- The addresses a host list names in the file. -/
def writtenList (file : List Item) (name : String) : List String :=
  ((lastSome (hostListItems name) (merge file).1).map macWords).getD []

/-! ## Lowering a chain -/

section Chains

variable {hook : ChainName} {items : List Item}

/-- What a rule has to be to stand in a chain. -/
structure Fits (hook : ChainName) (r : Rule) : Prop where
  outInterface : r.outInterface.isSome → hook = .forward
  mac : hook = .output → r.mac = [] ∧ r.macLists = []

theorem keepRule_ok {c : ChainRead} {r : Rule} (h : (keepRule hook c r).2 = []) :
    Fits hook r ∧ (keepRule hook c r).1 =
      { c with chain := { c.chain with rules := c.chain.rules ++ [r] } } := by
  unfold keepRule at h ⊢
  split_ifs at h ⊢ with hout hmac hname
  · refine ⟨⟨fun hsome => ?_, fun hhook => ?_⟩, rfl⟩
    · by_contra hne
      exact hout ⟨hsome, hne⟩
    · by_contra hne
      exact hmac ⟨hhook, not_and_or.1 hne⟩

theorem lowerRule_ok {name : String} {action : Action} (h : (lowerRule name action items).2 = []) :
    (overItems ruleItem { name, action } items).2 = [] ∧
      lowerRule name action items = (some (overItems ruleItem { name, action } items).1, []) := by
  unfold lowerRule at h ⊢
  dsimp only at h ⊢
  split_ifs at h ⊢ with hports
  · simp at h
  · exact ⟨h, by rw [h]⟩

theorem chainItem_ok {c : ChainRead} {i : Item} (h : (chainItem hook c i).2 = []) :
    (∃ w r, writtenRule i = some w ∧ assigned "policy" i = none ∧
      lowerRule w.name w.action w.items = (some r, []) ∧ Fits hook r ∧
      (chainItem hook c i).1 = { c with chain := { c.chain with rules := c.chain.rules ++ [r] } }) ∨
    (∃ v policy, i = .assignment "policy" v ∧ (asString v >>= policyOf) = .ok policy ∧
      (chainItem hook c i).1 = ⟨{ c.chain with policy }, true⟩) ∨
    writtenRule i = none ∧ assigned "policy" i = none ∧ (chainItem hook c i).1 = c := by
  cases i with
  | assignment key v =>
    rw [chainItem] at h ⊢
    by_cases hkey : key = "policy"
    · subst hkey
      rw [if_pos rfl] at h ⊢
      obtain ⟨policy, hread, -⟩ := exists_of_take h
      exact .inr (.inl ⟨v, policy, rfl, hread, by rw [hread]; rfl⟩)
    · rw [if_neg hkey] at h
      cases h
  | block head label overrides items =>
    simp only [chainItem] at h ⊢
    cases haction : ruleAction head with
    | none =>
      rw [haction] at h
      cases h
    | some action =>
      rw [haction] at h
      cases label with
      | none => cases h
      | some name =>
        dsimp only at h ⊢
        cases hrule : lowerRule name action items with
        | mk o wrong =>
          rw [hrule] at h
          have hwrong : (lowerRule name action items).2 = [] := by
            cases o with
            | none => rwa [hrule]
            | some r => rw [hrule]; exact (List.append_eq_nil_iff.1 h).1
          obtain ⟨hok, heq⟩ := lowerRule_ok hwrong
          obtain ⟨rfl, rfl⟩ := Prod.mk.inj (hrule.symm.trans heq)
          obtain ⟨hfits, hkeep⟩ := keepRule_ok (List.append_eq_nil_iff.1 h).2
          exact .inl ⟨⟨name, action, items⟩, _, by simp [writtenRule, haction], rfl, hrule, hfits,
            hkeep⟩
  | hook phase body => exact .inr (.inr ⟨rfl, rfl, rfl⟩)
  | incl path => exact .inr (.inr ⟨rfl, rfl, rfl⟩)

theorem lowerChain_ok (h : (lowerChain hook items).2 = []) :
    (overItems (chainItem hook) {} items).2 = [] ∧
      (lowerChain hook items).1 = some (overItems (chainItem hook) {} items).1.chain := by
  unfold lowerChain at h ⊢
  dsimp only at h ⊢
  by_cases hpolicy : (!(overItems (chainItem hook) {} items).1.policyNamed) = true
  · rw [if_pos hpolicy] at h
    simp at h
  · rw [if_neg hpolicy] at h ⊢
    exact ⟨h, rfl⟩

theorem rules_of_chain_ok (hok : (overItems (chainItem hook) {} items).2 = []) :
    List.Forall₂ (fun w r => lowerRule w.name w.action w.items = (some r, []) ∧ Fits hook r)
      (chainWritten items).rules (overItems (chainItem hook) {} items).1.chain.rules := by
  have hrules := overItems_adds (fun c : ChainRead => c.chain.rules)
    (fun i => ((writtenRule i).bind fun w => (lowerRule w.name w.action w.items).1).toList)
    (fun c i hi => by
      rcases chainItem_ok hi with ⟨w, r, hw, -, hr, -, heq⟩ | ⟨v, policy, rfl, -, heq⟩ |
        ⟨hw, -, heq⟩
      · simp [heq, hw, hr]
      · simp [heq, writtenRule]
      · simp [heq, hw]) items {} hok
  have hwritten : ∀ w ∈ (chainWritten items).rules, ∃ r,
      lowerRule w.name w.action w.items = (some r, []) ∧ Fits hook r := by
    intro w hw
    obtain ⟨i, hi, hw⟩ := List.mem_filterMap.1 hw
    obtain ⟨c, hc⟩ := overItems_ok hok i hi
    rcases chainItem_ok hc with ⟨w', r, hw', -, hr, hfits, -⟩ | ⟨v, policy, rfl, -, -⟩ | ⟨hnone, -⟩
    · obtain rfl := Option.some_inj.1 (hw.symm.trans hw')
      exact ⟨r, hr, hfits⟩
    · cases hw
    · rw [hnone] at hw
      cases hw
  rw [hrules, List.nil_append]
  clear hrules hok
  -- each written rule gives one rule, so the two lists go side by side
  induction items with
  | nil => exact .nil
  | cons i items ih =>
    rw [List.flatMap_cons]
    cases hw : writtenRule i with
    | none =>
      have hrest : (chainWritten (i :: items)).rules = (chainWritten items).rules :=
        List.filterMap_cons_none hw
      rw [hrest] at hwritten ⊢
      exact ih hwritten
    | some w =>
      have hrest : (chainWritten (i :: items)).rules = w :: (chainWritten items).rules :=
        List.filterMap_cons_some hw
      rw [hrest] at hwritten ⊢
      obtain ⟨r, hr⟩ := hwritten w List.mem_cons_self
      simp only [Option.bind_some, hr.1, Option.toList_some, List.cons_append, List.nil_append]
      exact .cons hr (ih fun w hw => hwritten w (List.mem_cons_of_mem _ hw))

theorem policy_of_chain_ok (hok : (overItems (chainItem hook) {} items).2 = []) :
    (overItems (chainItem hook) {} items).1.chain.policy = (chainWritten items).policy := by
  rw [chainWritten, bind_getD, keyValue, ← lastSome_map]
  refine overItems_last (fun c : ChainRead => c.chain.policy) _ (fun c i hi => ?_) items {} hok
  rcases chainItem_ok hi with ⟨w, r, -, hnone, -, -, heq⟩ | ⟨v, policy, rfl, hread, heq⟩ |
    ⟨-, hnone, heq⟩
  · simp [heq, hnone]
  · simp [heq, assigned, hread, Except.toOption]
  · simp [heq, hnone]

theorem chain_of_firewall_ok (hook : ChainName)
    (hok : (overItems firewallItem ({}, []) items).2 = []) :
    (overItems firewallItem ({}, []) items).1.1.chain hook =
      ((lastSome (chainItems hook) items).map fun items => (lowerChain hook items).1.getD {}).getD
        {} ∧
    ∀ is, lastSome (chainItems hook) items = some is → (lowerChain hook is).2 = [] := by
  have hitem : ∀ (s : Firewall × List ChainName) (i : Item), (firewallItem s i).2 = [] →
      ((firewallItem s i).1.1.chain hook =
        ((chainItems hook i).map fun items => (lowerChain hook items).1.getD {}).getD
          (s.1.chain hook)) ∧ ∀ is, chainItems hook i = some is → (lowerChain hook is).2 = [] := by
    intro s i hi
    cases i with
    | block head label overrides items =>
      simp only [firewallItem] at hi ⊢
      cases hhead : chainOf head with
      | none =>
        rw [hhead] at hi
        cases hi
      | some hook' =>
        rw [hhead] at hi
        dsimp only at hi ⊢
        by_cases hmem : hook' ∈ s.2
        · rw [if_pos hmem] at hi
          cases hi
        · rw [if_neg hmem] at hi ⊢
          have hwrong : (lowerChain hook' items).2 = [] := by
            cases hlower : lowerChain hook' items with
            | mk o wrong =>
              rw [hlower] at hi
              cases o <;> exact hi
          have hsome := (lowerChain_ok hwrong).2
          have hpair : lowerChain hook' items =
              (some (overItems (chainItem hook') {} items).1.chain, []) := Prod.ext hsome hwrong
          rw [hpair]
          simp only [chainItems, hhead, Option.some.injEq]
          by_cases hsame : hook' = hook
          · subst hsame
            simp only [if_true, Option.map_some, Option.getD_some, hpair, Option.some.injEq]
            refine ⟨?_, ?_⟩
            · cases hook' <;> rfl
            · rintro is rfl
              exact hwrong
          · simp only [hsame, if_false, Option.map_none, Option.getD_none]
            refine ⟨?_, by simp⟩
            cases hook' <;> cases hook <;> first | rfl | exact absurd rfl hsame
    | assignment key v => cases hi
    | _ => exact ⟨rfl, by simp [chainItems]⟩
  refine ⟨?_, fun is his => ?_⟩
  · rw [← lastSome_map]
    have h := overItems_last (fun s : Firewall × List ChainName => s.1.chain hook) _
      (fun s i hi => (hitem s i hi).1) items ({}, []) hok
    rw [h]
    cases hook <;> rfl
  · obtain ⟨i, hi, his⟩ := exists_of_lastSome his
    obtain ⟨s, hs⟩ := overItems_ok hok i hi
    exact (hitem s i hs).2 is his

end Chains

/-! ## Lowering the blocks of a file -/

section Blocks

variable {blocks : List MergedBlock}

theorem lowerHostList_ok {name : String} {items : List Item}
    (h : (lowerHostList name items).2 = []) :
    ∃ l, (lowerHostList name items).1 = some l ∧ l.name = name ∧
      (∀ t, t ∈ l.mac ↔ ∃ word ∈ macWords items, stationNormalize word = .ok t) ∧
      ∀ word ∈ macWords items, ∃ t, stationNormalize word = .ok t := by
  unfold lowerHostList at h ⊢
  split_ifs at h ⊢ with hname
  have hitem : ∀ (l : HostList) (i : Item), (hostListItem l i).2 = [] →
      (hostListItem l i).1.name = l.name ∧
        (∀ v ∈ assigned "mac" i, ∀ word ∈ words v, ∃ t, stationNormalize word = .ok t) ∧
        ∀ t, t ∈ (hostListItem l i).1.mac ↔
          t ∈ l.mac ∨ ∃ v ∈ assigned "mac" i, ∃ word ∈ words v, stationNormalize word = .ok t := by
    intro l i hi
    cases i with
    | assignment key v =>
      rw [hostListItem] at hi ⊢
      by_cases hkey : key = "mac"
      · subst hkey
        rw [if_pos rfl] at hi ⊢
        have hok := (List.append_eq_nil_iff.1 hi).2
        have hone : ∀ (l : HostList) (word : String), (take l (stationNormalize word) fun station =>
            { l with mac := l.mac ++ [station] }).2 = [] → ∃ t, stationNormalize word = .ok t ∧
            (take l (stationNormalize word) fun station =>
              { l with mac := l.mac ++ [station] }).1 = { l with mac := l.mac ++ [t] } :=
          fun l word hw => exists_of_take hw
        refine ⟨?_, ?_, fun t => ?_⟩
        · refine overItems_invariant_ok (P := fun l' : HostList => l'.name = l.name)
            (fun l' word hw hl' => ?_) _ hok rfl
          obtain ⟨t, -, heq⟩ := hone l' word hw
          rw [heq, hl']
        · rintro v' ⟨rfl⟩ word hw
          obtain ⟨l', hl'⟩ := overItems_ok hok word hw
          obtain ⟨t, ht, -⟩ := hone l' word hl'
          exact ⟨t, ht⟩
        · have hmem := overItems_some (P := fun l' : HostList => t ∈ l'.mac)
            (Q := fun word => stationNormalize word = .ok t) (fun l' word hw => by
              obtain ⟨t', ht', heq⟩ := hone l' word hw
              rw [heq, ht']
              simp [eq_comm]) (words v) l hok
          exact hmem.trans (by simp [assigned])
      · rw [if_neg hkey] at hi
        cases hi
    | block head label overrides items => cases hi
    | _ => exact ⟨rfl, by simp [assigned], by simp [assigned, hostListItem]⟩
  refine ⟨_, rfl, ?_, fun t => ?_, fun word hw => ?_⟩
  · exact overItems_invariant_ok (P := fun l : HostList => l.name = name)
      (fun l i hi hl => (hitem l i hi).1.trans hl) items h rfl
  · have hmem :=
      overItems_some (P := fun l : HostList => t ∈ l.mac) (fun l i hi => (hitem l i hi).2.2 t)
      items { name } h
    rw [hmem]
    simp only [List.not_mem_nil, false_or, macWords, keyValues, List.mem_flatMap,
      List.mem_filterMap]
    constructor
    · rintro ⟨i, hi, v, hv, word, hw, ht⟩
      exact ⟨word, ⟨v, ⟨i, hi, hv⟩, hw⟩, ht⟩
    · rintro ⟨word, ⟨v, ⟨i, hi, hv⟩, hw⟩, ht⟩
      exact ⟨i, hi, v, hv, word, hw, ht⟩
  · obtain ⟨v, hv, hw⟩ := List.mem_flatMap.1 hw
    obtain ⟨i, hi, hv⟩ := List.mem_filterMap.1 hv
    obtain ⟨l, hl⟩ := overItems_ok h i hi
    exact (hitem l i hl).2.1 v hv word hw

theorem findHostList_append (lists : List HostList) (l : HostList) (name : String) :
    findHostList (lists ++ [l]) name = if l.name = name then some l
    else findHostList lists name := by
  simp only [findHostList, List.reverse_append, List.reverse_singleton, List.singleton_append,
    List.find?_cons]
  split_ifs with h <;> simp [h]

theorem firewallBlock_ok {s : FirewallRead} {b : MergedBlock} (h : (firewallBlock s b).2 = []) :
    (∃ items, firewallItems b = some items ∧ (∀ name, hostListItems name b = none) ∧
      (overItems firewallItem ({}, []) items).2 = [] ∧
      (firewallBlock s b).1 =
        { s with firewall := some (overItems firewallItem ({}, []) items).1.1 }) ∨
    (∃ name items l, firewallItems b = none ∧
      (∀ n, hostListItems n b = if name = n then some items else none) ∧
      (lowerHostList name items).2 = [] ∧ (lowerHostList name items).1 = some l ∧
      (firewallBlock s b).1 = { s with hostLists := s.hostLists ++ [l] }) ∨
    firewallItems b = none ∧ (∀ name, hostListItems name b = none) ∧ (firewallBlock s b).1 = s := by
  unfold firewallBlock at h ⊢
  by_cases hfw : b.head = "firewall"
  · rw [if_pos hfw] at h ⊢
    by_cases htwo : s.firewall.isSome
    · rw [if_pos htwo] at h
      cases h
    · rw [if_neg htwo] at h ⊢
      exact .inl ⟨b.items, if_pos hfw, fun name => by simp [hostListItems, hfw], h, rfl⟩
  · rw [if_neg hfw] at h ⊢
    have hnone : firewallItems b = none := if_neg hfw
    by_cases hlist : b.head = "host_list"
    · rw [if_pos hlist] at h ⊢
      cases hlabel : b.label with
      | none =>
        rw [hlabel] at h
        cases h
      | some name =>
        rw [hlabel] at h
        dsimp only at h ⊢
        have hitems : ∀ n, hostListItems n b = if name = n then some b.items else none := by
          intro n
          simp [hostListItems, hlist, hlabel]
        cases hlower : lowerHostList name b.items with
        | mk o wrong =>
          rw [hlower] at h
          have hwrong : (lowerHostList name b.items).2 = [] := by
            rw [hlower]
            cases o with
            | none => exact h
            | some l =>
              dsimp only at h ⊢
              split_ifs at h with htwice
              · simp at h
              · exact h
          obtain ⟨l, hl, -⟩ := lowerHostList_ok hwrong
          obtain rfl : o = some l := by
            rw [hlower] at hl
            exact hl
          dsimp only at h ⊢
          by_cases htwice : (s.hostLists.any fun h' => h'.name = l.name) = true
          · rw [if_pos htwice] at h
            simp at h
          · rw [if_neg htwice] at h ⊢
            exact .inr (.inl ⟨name, b.items, l, hnone, hitems, hwrong, hl, rfl⟩)
    · rw [if_neg hlist] at h ⊢
      exact .inr (.inr ⟨hnone, fun name => by simp [hostListItems, hlist], rfl⟩)

theorem firewall_of_ok (hok : (overItems firewallBlock {} blocks).2 = []) :
    (overItems firewallBlock {} blocks).1.firewall = (lastSome firewallItems blocks).map
      (fun items => (overItems firewallItem ({}, []) items).1.1) ∧
    ∀ items, lastSome firewallItems blocks = some items →
      (overItems firewallItem ({}, []) items).2 = [] := by
  constructor
  · have h := overItems_last (fun s : FirewallRead => s.firewall)
      (fun b => (firewallItems b).map fun items =>
        some (overItems firewallItem ({}, []) items).1.1) (fun s b hb => by
      rcases firewallBlock_ok hb with ⟨items, hitems, -, -, heq⟩ | ⟨name, items, l, hnone, -, -, -,
        heq⟩ | ⟨hnone, -, heq⟩
      · simp [heq, hitems]
      · simp [heq, hnone]
      · simp [heq, hnone]) blocks {} hok
    rw [h, lastSome_map]
    cases lastSome firewallItems blocks <;> rfl
  · intro items hitems
    obtain ⟨b, hb, hitems⟩ := exists_of_lastSome hitems
    obtain ⟨s, hs⟩ := overItems_ok hok b hb
    rcases firewallBlock_ok hs with ⟨items', hitems', -, hwrong, -⟩ | ⟨name, is, l, hnone, -⟩ |
      ⟨hnone, -⟩
    · obtain rfl := Option.some_inj.1 (hitems.symm.trans hitems')
      exact hwrong
    · rw [hnone] at hitems
      cases hitems
    · rw [hnone] at hitems
      cases hitems

theorem findHostList_of_ok (hok : (overItems firewallBlock {} blocks).2 = []) {name : String}
    {l : HostList}
    (hl : findHostList (overItems firewallBlock {} blocks).1.hostLists name = some l) :
    ∃ items, lastSome (hostListItems name) blocks = some items ∧
      (lowerHostList name items).2 = [] ∧ (lowerHostList name items).1 = some l := by
  have hfind := overItems_last (fun s : FirewallRead => findHostList s.hostLists name)
    (fun b => (hostListItems name b).map fun items => (lowerHostList name items).1)
      (fun s b hb => by
    rcases firewallBlock_ok hb with ⟨items, -, hnone, -, heq⟩ | ⟨n, items, l, -, hitems, hwrong, hl,
      heq⟩ | ⟨-, hnone, heq⟩
    · simp [heq, hnone]
    · obtain ⟨l', hl', hname, -⟩ := lowerHostList_ok hwrong
      obtain rfl := Option.some_inj.1 (hl.symm.trans hl')
      rw [heq, hitems, findHostList_append, hname]
      split_ifs with hn
      · subst hn
        exact hl'.symm
      · rfl
    · simp [heq, hnone]) blocks {} hok
  dsimp only at hfind
  rw [hl, lastSome_map] at hfind
  cases hitems : lastSome (hostListItems name) blocks with
  | none =>
    rw [hitems] at hfind
    cases hfind
  | some items =>
    rw [hitems] at hfind
    refine ⟨items, rfl, ?_, hfind.symm⟩
    obtain ⟨b, hb, hitems⟩ := exists_of_lastSome hitems
    obtain ⟨s, hs⟩ := overItems_ok hok b hb
    rcases firewallBlock_ok hs with ⟨_, -, hnone, -⟩ | ⟨n, is, l', -, his, hwrong, -⟩ |
      ⟨-, hnone, -⟩
    · rw [hnone] at hitems
      cases hitems
    · rw [his] at hitems
      split_ifs at hitems with hn
      obtain rfl := Option.some_inj.1 hitems
      exact hn ▸ hwrong
    · rw [hnone] at hitems
      cases hitems

theorem resolved_of_ok {hook : ChainName} {w : WrittenRule} {r : Rule}
    (hok : (overItems firewallBlock {} blocks).2 = [])
    (hlower : lowerRule w.name w.action w.items = (some r, [])) (hfits : Fits hook r)
    (hresolve : (resolveRule hook (overItems firewallBlock {} blocks).1.hostLists r).2 = []) :
    Resolved hook (fun name => ((lastSome (hostListItems name) blocks).map macWords).getD [])
      w.name w.action w.items
      (resolveRule hook (overItems firewallBlock {} blocks).1.hostLists r).1 := by
  obtain ⟨hrule, heq⟩ := lowerRule_ok (by rw [hlower] : (lowerRule w.name w.action w.items).2 = [])
  obtain rfl : r = (overItems ruleItem { name := w.name, action := w.action } w.items).1 := by
    rw [hlower] at heq
    simpa using heq
  have hholds := holdsWritten_of_ok hrule
  have hsound := sound_of_ok hrule
  have hstation := station_of_ok hrule
  set r := (overItems ruleItem { name := w.name, action := w.action } w.items).1
  obtain ⟨⟨mac, names, hframe⟩, hfound, hmac⟩ := resolveRule_ok hresolve
  -- a host list a rule names is one that was found, and holds its written stations
  have hlist : ∀ n ∈ r.macLists, ∃ l items,
      findHostList (overItems firewallBlock {} blocks).1.hostLists n = some l ∧
      lastSome (hostListItems n) blocks = some items ∧
      (∀ t, t ∈ l.mac ↔ ∃ word ∈ macWords items, stationNormalize word = .ok t) ∧
      ∀ word ∈ macWords items, ∃ t, stationNormalize word = .ok t := by
    intro n hn
    obtain ⟨l, hl⟩ := hfound n hn
    obtain ⟨items, hitems, hwrong, hlower⟩ := findHostList_of_ok hok hl
    obtain ⟨l', hl', -, hspec⟩ := lowerHostList_ok hwrong
    obtain rfl := Option.some_inj.1 (hlower.symm.trans hl')
    exact ⟨l, items, hl, hitems, hspec⟩
  refine ⟨⟨r, mac, names, hholds, hframe⟩, fun t => ?_, fun word hw => ?_, day_of_ok hrule, ?_⟩
  · rw [hmac t, hholds.mac t]
    constructor
    · rintro (⟨word, hw, hnone, ht⟩ | ⟨n, hn, l, hl, ht⟩)
      · exact ⟨word, List.mem_flatMap.2 ⟨word, hw, by simp [macEntries, hnone]⟩, ht⟩
      · obtain ⟨l', items, hl', hitems, hspec, -⟩ := hlist n hn
        obtain rfl := Option.some_inj.1 (hl'.symm.trans hl)
        obtain ⟨word, hword, ht⟩ := (hspec t).1 ht
        obtain ⟨named, hnamed, hlistOf⟩ := (hholds.macLists n).1 hn
        exact ⟨word,
          List.mem_flatMap.2 ⟨named, hnamed, by simp [macEntries, hlistOf, hitems, hword]⟩,
          ht⟩
    · rintro ⟨word, hw, ht⟩
      obtain ⟨named, hnamed, hw⟩ := List.mem_flatMap.1 hw
      cases hlistOf : hostListOf named with
      | none =>
        obtain rfl : word = named := by simpa [macEntries, hlistOf] using hw
        exact .inl ⟨word, hnamed, hlistOf, ht⟩
      | some n =>
        have hn := (hholds.macLists n).2 ⟨named, hnamed, hlistOf⟩
        obtain ⟨l, items, hl, hitems, hspec, -⟩ := hlist n hn
        have hword : word ∈ macWords items := by simpa [macEntries, hlistOf, hitems] using hw
        exact .inr ⟨n, hn, l, hl, (hspec t).2 ⟨word, hword, ht⟩⟩
  · obtain ⟨named, hnamed, hw⟩ := List.mem_flatMap.1 hw
    cases hlistOf : hostListOf named with
    | none =>
      obtain rfl : word = named := by simpa [macEntries, hlistOf] using hw
      exact hstation word hnamed hlistOf
    | some n =>
      have hn := (hholds.macLists n).2 ⟨named, hnamed, hlistOf⟩
      obtain ⟨l, items, hl, hitems, -, hreads⟩ := hlist n hn
      exact hreads word (by simpa [macEntries, hlistOf, hitems] using hw)
  · refine ⟨?_, ?_, ?_, ?_, fun t ht => ?_, ?_, ?_⟩
    · rw [hframe]
      exact hsound.ports
    · rw [hframe]
      exact hsound.interface
    · rw [hframe]
      intro name hname
      exact ⟨hfits.outInterface (by simpa using Option.isSome_iff_exists.2 ⟨name, hname⟩),
        (hsound.outInterface name hname).2⟩
    · rw [hframe]
      exact hsound.states
    · rcases (hmac t).1 ht with ht | ⟨n, hn, l, hl, ht⟩
      · exact hsound.stations t ht
      · obtain ⟨l', items, hl', -, hspec, -⟩ := hlist n hn
        obtain rfl := Option.some_inj.1 (hl'.symm.trans hl)
        obtain ⟨word, -, ht⟩ := (hspec t).1 ht
        exact (stationNormalize_ok ht).1
    · rw [hframe]
      exact hsound.hours
    · rw [hframe]
      exact hsound.days

end Blocks

/-! ## The document -/

theorem compileFirewall_ok {file : List Item} {fw : Firewall}
    (h : compileFirewall file = .ok (some fw)) (hook : ChainName) :
    (fw.chain hook).policy = (writtenChain file hook).policy ∧
      List.Forall₂ (fun w r => Resolved hook (writtenList file) w.name w.action w.items r)
        (writtenChain file hook).rules (fw.chain hook).rules := by
  unfold compileFirewall at h
  dsimp only at h
  by_cases hmerge : (merge file).2 ≠ []
  · rw [if_pos hmerge] at h
    cases h
  rw [if_neg hmerge] at h
  cases hread : (overItems firewallBlock {} (merge file).1).1.firewall with
  | none =>
    rw [hread] at h
    dsimp only at h
    split_ifs at h
    cases h
  | some read =>
    rw [hread] at h
    dsimp only at h
    split_ifs at h with hwrong
    obtain rfl := Option.some_inj.1 (Except.ok.inj h)
    obtain ⟨hok, hresolve⟩ := List.append_eq_nil_iff.1 (not_not.1 hwrong)
    obtain ⟨hfirewall, hitemsOk⟩ := firewall_of_ok hok
    rw [hread] at hfirewall
    obtain ⟨items, hitems, rfl⟩ := Option.map_eq_some_iff.1 hfirewall.symm
    obtain ⟨hchain, hchainOk⟩ := chain_of_firewall_ok hook (hitemsOk items hitems)
    have hwritten : writtenChain file hook =
        chainWritten ((lastSome (chainItems hook) items).getD []) := by
      rw [writtenChain, hitems, Option.bind_some]
    set read := (overItems firewallItem ({}, []) items).1.1
    set lists := (overItems firewallBlock {} (merge file).1).1.hostLists with hlists
    have hchain' : ((resolveFirewall lists read).1.chain hook) =
        (resolveChain hook lists (read.chain hook)).1 := by
      cases hook <;> rfl
    have hresolve' : (resolveChain hook lists (read.chain hook)).2 = [] := by
      have hsplit := hresolve
      simp only [resolveFirewall, List.append_eq_nil_iff] at hsplit
      cases hook
      · exact hsplit.1.1
      · exact hsplit.1.2
      · exact hsplit.2
    rw [hchain', hwritten]
    cases hcase : lastSome (chainItems hook) items with
    | none =>
      rw [hcase] at hchain
      rw [hchain]
      exact ⟨rfl, .nil⟩
    | some is =>
      rw [hcase] at hchain
      obtain ⟨hisOk, hlowered⟩ := lowerChain_ok (hchainOk is hcase)
      rw [Option.map_some, Option.getD_some, hlowered, Option.getD_some] at hchain
      rw [hchain] at hresolve' ⊢
      refine ⟨policy_of_chain_ok hisOk, ?_⟩
      have hrules := rules_of_chain_ok hisOk
      have hnone := List.flatMap_eq_nil_iff.1 hresolve'
      simp only [resolveChain, List.forall₂_map_right_iff, Option.getD_some]
      refine ((List.forall₂_and_left _ _).2 ⟨hnone, hrules.flip⟩).flip.imp ?_
      rintro w r ⟨hr, hlower, hfits⟩
      exact resolved_of_ok hok hlower hfits hr

/-! ## Verdicts -/

def policyVerdict : ChainPolicy → Verdict
  | .accept => .accept
  | .drop => .drop

/-- What a filter chain does with a packet : what its first rule that matches says, or its
policy. -/
def chainVerdict (e : Endian) (c : FilterChain) (p : Packet) : Verdict :=
  (c.rules.findSome? fun k => run e p [] k.exprs).getD (policyVerdict c.policy)

section Written

variable (host : Host) (hook : ChainName) (lists : String → List String)

open Classical in
/-- What a written chain does with a packet. -/
noncomputable def writtenVerdict (c : WrittenChain) (p : Packet) : Verdict :=
  ((c.rules.find? fun w => (writtenAsks lists w.items).Matches host p hook).map fun w =>
    verdictOf w.action).getD (policyVerdict c.policy)

def RuleMeans (w : WrittenRule) (kernel : List KernelRule) : Prop :=
  (∀ p, (writtenAsks lists w.items).Matches host p hook ↔
    ∃ k ∈ kernel, (run host.endian p [] k.exprs).isSome) ∧
  ∀ k ∈ kernel, ∀ p, ∀ v ∈ run host.endian p [] k.exprs, v = verdictOf w.action

/-- A chain of the kernel means what is written : the rules of each written rule stand together, in
order, and mean what it says, and so the chain does with every packet what is written. -/
def ChainMeans (w : WrittenChain) (rules : List Rule) (c : FilterChain) : Prop :=
  ∃ segments, rules.mapM (firewallRuleMessages host hook) = .ok segments ∧
    c.rules = segments.flatten ∧ c.policy = w.policy ∧
    List.Forall₂ (RuleMeans host hook lists) w.rules segments ∧
    ∀ p, chainVerdict host.endian c p = writtenVerdict host hook lists w p

end Written

/-- The firewall of a file, wherever it compiles and is built, means what is written. -/
def MeansWritten (host : Host) (file : List Item) : Prop :=
  ∀ fw uplinks forwards table, compileFirewall file = .ok (some fw) →
    buildReplaceAll host uplinks (some fw) forwards = .ok (some table) →
    ∃ filter, table.filter = some filter ∧ ∀ hook,
      ChainMeans host hook (writtenList file) (writtenChain file hook) (fw.chain hook).rules
        (filter.chain hook)

/-- The file has a firewall that compiles, and the builder takes it. -/
def Accepted (host : Host) (file : List Item) : Prop :=
  ∃ fw uplinks forwards table, compileFirewall file = .ok (some fw) ∧
    buildReplaceAll host uplinks (some fw) forwards = .ok (some table)

/-- Every list a rule names has addresses in it. -/
def ListsFilled (file : List Item) : Prop :=
  ∀ hook, ∀ w ∈ (writtenChain file hook).rules, Filled (writtenAsks (writtenList file) w.items)

section Means

variable {host : Host} {hook : ChainName} {lists : String → List String}

theorem findSome?_segments {rules : List WrittenRule} {segments : List (List KernelRule)}
    (h : List.Forall₂ (RuleMeans host hook lists) rules segments) (p : Packet)
    [DecidablePred fun w : WrittenRule => (writtenAsks lists w.items).Matches host p hook] :
    (segments.flatten.findSome? fun k => run host.endian p [] k.exprs) =
      (rules.find? fun w => (writtenAsks lists w.items).Matches host p hook).map fun w =>
        verdictOf w.action := by
  induction h with
  | nil => rfl
  | @cons w kernel rules segments hw _ ih =>
    obtain ⟨hmatch, hverdict⟩ := hw
    rw [List.flatten_cons, List.findSome?_append, List.find?_cons, ih]
    by_cases hm : (writtenAsks lists w.items).Matches host p hook
    · obtain ⟨k, hk, hsome⟩ := (hmatch p).1 hm
      cases hfind : kernel.findSome? fun k => run host.endian p [] k.exprs with
      | none =>
        have := List.findSome?_eq_none_iff.1 hfind k hk
        rw [this] at hsome
        cases hsome
      | some v =>
        obtain ⟨k', hk', hv⟩ := List.exists_of_findSome?_eq_some hfind
        rw [hverdict k' hk' p v hv]
        simp [hm]
    · have hfind : (kernel.findSome? fun k => run host.endian p [] k.exprs) = none := by
        refine List.findSome?_eq_none_iff.2 fun k hk => ?_
        by_contra hne
        exact hm ((hmatch p).2 ⟨k, hk, Option.isSome_iff_ne_none.2 hne⟩)
      simp [hfind, hm]

theorem ruleMeans_iff {w : WrittenRule} {r : Rule} {kernel : List KernelRule}
    (hr : Resolved hook lists w.name w.action w.items r)
    (hok : firewallRuleMessages host hook r = .ok kernel) :
    RuleMeans host hook lists w kernel ↔ Filled (writtenAsks lists w.items) := by
  have haction : r.action = w.action := by
    obtain ⟨r₀, mac, names, hr₀, rfl⟩ := hr.lowered
    exact hr₀.action
  constructor
  · intro hmeans
    by_contra hempty
    obtain ⟨p, hp⟩ := exists_match_of_ruleMessages hok hr.sound
    have hrun := (ruleMessages_match hok hr.sound p).1.1 hp
    exact not_matches_of_empty hempty ((hmeans.1 p).2 hrun)
  · intro hfilled
    refine ⟨fun p => ?_, fun k hk p v hv => ?_⟩
    · rw [← hr.matches_written_iff hfilled]
      exact (ruleMessages_match hok hr.sound p).1
    · rw [← haction]
      exact (ruleMessages_match hok hr.sound p).2 k hk v hv

theorem filterChain_ok {c : Chain} {fc : FilterChain} (h : filterChain host hook c = .ok fc) :
    ∃ segments, c.rules.mapM (firewallRuleMessages host hook) = .ok segments ∧
      fc = ⟨c.policy, segments.flatten⟩ := by
  obtain ⟨segments, hsegments, heq⟩ := bind_eq_ok.1 h
  exact ⟨segments, hsegments, (Except.ok.inj heq).symm⟩

/-- A table that is built has a chain for each of the document's. -/
theorem filter_of_build {uplinks : List String} {fw : Firewall} {forwards : List ForwardRule}
    {table : Table} (h : buildReplaceAll host uplinks (some fw) forwards = .ok (some table)) :
    ∃ filter, table.filter = some filter ∧
      ∀ hook, filterChain host hook (fw.chain hook) = .ok (filter.chain hook) := by
  obtain ⟨_, -, h⟩ := bind_eq_ok.1 h
  obtain ⟨returns, -, h⟩ := bind_eq_ok.1 h
  obtain ⟨translations, -, h⟩ := bind_eq_ok.1 h
  obtain ⟨built, hbuilt, h⟩ := bind_eq_ok.1 h
  obtain ⟨filter, hfilter, rfl⟩ := map_eq_ok.1 hbuilt
  rw [if_neg (by simp)] at h
  obtain rfl := Option.some_inj.1 (Except.ok.inj h)
  refine ⟨filter, rfl, ?_⟩
  obtain ⟨input, hinput, hfilter⟩ := bind_eq_ok.1 hfilter
  obtain ⟨forward, hforward, hfilter⟩ := bind_eq_ok.1 hfilter
  obtain ⟨output, houtput, hfilter⟩ := bind_eq_ok.1 hfilter
  obtain rfl := Except.ok.inj hfilter
  rintro (_ | _ | _)
  · exact hinput
  · exact hforward
  · exact houtput

theorem forall₂_comp {α β γ : Type*} {R : α → β → Prop} {S : β → γ → Prop} :
    ∀ {as : List α} {bs : List β} {cs : List γ}, List.Forall₂ R as bs → List.Forall₂ S bs cs →
      List.Forall₂ (fun a c => ∃ b, R a b ∧ S b c) as cs
  | [], [], [], _, _ => .nil
  | _ :: _, _ :: _, _ :: _, .cons hr hrs, .cons hs hss => .cons ⟨_, hr, hs⟩ (forall₂_comp hrs hss)

theorem forall₂_exists {α β : Type*} {R S : α → β → Prop} :
    ∀ {as : List α} {bs : List β}, List.Forall₂ R as bs → List.Forall₂ S as bs →
      ∀ a ∈ as, ∃ b, R a b ∧ S a b
  | [], [], _, _, a, ha => absurd ha List.not_mem_nil
  | _ :: _, _ :: _, .cons hr hrs, .cons hs hss, a, ha => by
    rcases List.mem_cons.1 ha with rfl | ha
    · exact ⟨_, hr, hs⟩
    · exact forall₂_exists hrs hss a ha

end Means

/-- Rules that mean what is written name no empty list. -/
theorem filled_of_meansWritten {host : Host} {file : List Item} (hmeans : MeansWritten host file)
    (haccepted : Accepted host file) : ListsFilled file := by
  obtain ⟨fw, uplinks, forwards, table, hcompile, hbuild⟩ := haccepted
  intro hook w hw
  obtain ⟨filter, -, hchains⟩ := hmeans fw uplinks forwards table hcompile hbuild
  obtain ⟨segments, hsegments, -, -, hrules, -⟩ := hchains hook
  have hresolved := (compileFirewall_ok hcompile hook).2
  obtain ⟨kernel, ⟨r, hr, hok⟩, hw⟩ :=
    forall₂_exists (forall₂_comp hresolved (mapM_eq_ok.1 hsegments)) hrules w hw
  exact (ruleMeans_iff hr hok).1 hw

/-- A chain whose lists are filled means what is written. -/
theorem chainMeans_of_filled {host : Host} {file : List Item} {fw : Firewall} {hook : ChainName}
    {c : FilterChain} (hcompile : compileFirewall file = .ok (some fw))
    (hfilled :
      ∀ w ∈ (writtenChain file hook).rules, Filled (writtenAsks (writtenList file) w.items))
    (hbuild : filterChain host hook (fw.chain hook) = .ok c) :
    ChainMeans host hook (writtenList file) (writtenChain file hook) (fw.chain hook).rules c := by
  classical
  obtain ⟨segments, hsegments, rfl⟩ := filterChain_ok hbuild
  obtain ⟨hpolicy, hresolved⟩ := compileFirewall_ok hcompile hook
  have hrules : List.Forall₂ (RuleMeans host hook (writtenList file))
      (writtenChain file hook).rules segments := by
    refine ((List.forall₂_and_left _ _).2 ⟨hfilled,
      forall₂_comp hresolved (mapM_eq_ok.1 hsegments)⟩).imp ?_
    rintro w kernel ⟨hw, r, hr, hok⟩
    exact (ruleMeans_iff hr hok).2 hw
  refine ⟨segments, hsegments, rfl, hpolicy, hrules, fun p => ?_⟩
  rw [chainVerdict, writtenVerdict, findSome?_segments hrules p, hpolicy]

/-- The firewall of a file means in the kernel what is written, exactly where no list written in a
rule of it is empty. -/
theorem meansWritten_iff (host : Host) (file : List Item) :
    MeansWritten host file ↔ (Accepted host file → ListsFilled file) := by
  constructor
  · exact filled_of_meansWritten
  · intro hfilled fw uplinks forwards table hcompile hbuild
    have hfilled := hfilled ⟨fw, uplinks, forwards, table, hcompile, hbuild⟩
    obtain ⟨filter, hfilter, hchains⟩ := filter_of_build hbuild
    exact ⟨filter, hfilter, fun hook =>
      chainMeans_of_filled hcompile (hfilled hook) (hchains hook)⟩

/-! ## A host list nobody filled -/

/-- A chain that drops, with one rule for the stations of a host list that has none. -/
def unfilledFile : List Item :=
  [.block "host_list" (some "printers") false [],
    .block "firewall" none false
      [.block "input" none false
        [.assignment "policy" (.string "drop"),
          .block "accept" (some "printing") false
            [.assignment "mac" (.string "@host_list:printers")]]]]

/-- The firewall it compiles to : the rule has no constraint left. -/
def unfilledFirewall : Firewall where
  input :=
    { policy := .drop
      rules := [{ name := "printing", action := .accept, macLists := ["printers"] }] }

/-- A machine in UTC, with the digest of that rule's text. It is asked for no address. -/
def unfilledHost : Host where
  endian := .little
  offset := 0
  pton := fun _ _ => none
  pton_width := by simp
  ntop := fun _ _ => ""
  sha256Hex := fun _ => "e1f2a5b43ea664ca7473c6808f22b87c769cc1cd11a15f52bf3f374acf6e4bba"

theorem compile_unfilledFile : compileFirewall unfilledFile = .ok (some unfilledFirewall) := by
  have hmerge : (merge unfilledFile).2 = [] := by decide
  have hread : overItems firewallBlock {} (merge unfilledFile).1 =
      (⟨[{ name := "printers" }], some unfilledFirewall⟩, []) := by decide
  have hresolve : resolveFirewall [{ name := "printers" }] unfilledFirewall =
      (unfilledFirewall, []) := by
    simp [resolveFirewall, resolveChain, resolveRule, overItems, resolveList, sortSet,
      unfilledFirewall, findHostList]
  simp [compileFirewall, hmerge, hread, hresolve]

theorem build_unfilledFirewall :
    buildReplaceAll unfilledHost [] (some unfilledFirewall) [] = .ok (some
      ⟨none, none, some ⟨⟨.drop, [⟨[.verdict true],
        some "name=printing sha256=e1f2a5b43ea664ca"⟩]⟩, ⟨.accept, []⟩, ⟨.accept, []⟩⟩⟩) := by
  decide

/-- A list that ends up empty is no constraint in the kernel : its rule accepts every packet. -/
theorem unfilled_list_accepts_everything : ¬MeansWritten unfilledHost unfilledFile := by
  intro hmeans
  have hfilled := filled_of_meansWritten hmeans
    ⟨unfilledFirewall, [], [], _, compile_unfilledFile, build_unfilledFirewall⟩
  have hrule :=
    hfilled .input ⟨"printing", .accept, [.assignment "mac" (.string "@host_list:printers")]⟩
    List.mem_cons_self
  exact hrule.stations (by decide)

end Netcfgd.Compile
