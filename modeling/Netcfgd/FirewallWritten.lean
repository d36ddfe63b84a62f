import Mathlib.Data.List.Dedup
import Netcfgd.RuleMeaning

/-!
# The firewall as it is written

What the rules of a `firewall` block ask, read from the items of the file and not from what the
lowering makes of them. A key that is written is a constraint, its last value the one that counts ;
the words of every `mac` count, a host list standing for the words of its own `mac`
(`writtenAsks`).

A rule that is lowered and resolved asks the same of a packet as the rule that is written, as long
as no key's list is empty (`matches_written_iff`). An empty list asks for nothing once it is
lowered, and cannot be met where it is written (`not_matches_of_empty`).
-/

namespace Netcfgd.Compile

open Schedule Nftables Nft

/-! ## Reading the items -/

def assigned (key : String) : Item → Option Value
  | .assignment k v => if k = key then some v else none
  | _ => none

def keyValue (key : String) (items : List Item) : Option Value := lastSome (assigned key) items

def keyValues (key : String) (items : List Item) : List Value := items.filterMap (assigned key)

def words (v : Value) : List String := (asWords v).1

def portNumbers (v : Value) : List ℕ :=
  (entriesOf v).filterMap fun
    | .number n => some n.toNat
    | _ => none

/-- The words of some `mac` keys. -/
def macWords (items : List Item) : List String := (keyValues "mac" items).flatMap words

/-- A word of a `mac`, or those of the host list it names. -/
def macEntries (lists : String → List String) (word : String) : List String :=
  match hostListOf word with
  | some name => lists name
  | none => [word]

/-- The stations a rule names, where it has a `mac`. -/
def writtenStations (lists : String → List String) (items : List Item) : Option (List String) :=
  if (keyValues "mac" items).isEmpty then none
  else some ((macWords items).flatMap (macEntries lists))

def writtenAsks (lists : String → List String) (items : List Item) : Asks where
  protocol := ((keyValue "protocol" items).bind fun v =>
    (asString v >>= protocolOf).toOption).getD .any
  ports := (keyValue "port" items).map portNumbers
  sources := (keyValue "from" items).map words
  destinations := (keyValue "to" items).map words
  interface := (keyValue "interface" items).bind fun v => (asString v).toOption
  outInterface := (keyValue "out_interface" items).bind fun v => (asString v).toOption
  states := (keyValue "state" items).map words
  translated := ((keyValue "translated" items).bind fun v => (asBool v).toOption).getD false
  stations := writtenStations lists items
  hours := (keyValue "hours" items).bind fun v =>
    (asString v).toOption.bind fun text => (hoursParse text.toList).toOption
  days := (keyValue "days" items).map words

structure Filled (asks : Asks) : Prop where
  ports : asks.ports ≠ some []
  sources : asks.sources ≠ some []
  destinations : asks.destinations ≠ some []
  states : asks.states ≠ some []
  stations : asks.stations ≠ some []
  days : asks.days ≠ some []

/-- What a key with nothing wrong does to a rule. -/
inductive RuleStep (r : Rule) : String → Value → Rule → Prop
  | protocol {v : Value} {p : Protocol} (h : (asString v >>= protocolOf) = .ok p) :
    RuleStep r "protocol" v { r with protocol := p }
  | port {v : Value} (h : ∀ port ∈ portNumbers v, port < 65536) :
    RuleStep r "port" v { r with ports := portNumbers v }
  | source {v : Value} : RuleStep r "from" v { r with sources := words v }
  | destination {v : Value} : RuleStep r "to" v { r with destinations := words v }
  | interface {v : Value} {name : String} (h : asString v = .ok name)
      (hname : usableName name = none) : RuleStep r "interface" v { r with interface := some name }
  | outInterface {v : Value} {name : String} (h : asString v = .ok name)
      (hname : usableName name = none) :
    RuleStep r "out_interface" v { r with outInterface := some name }
  | state {v : Value} (h : ∀ word ∈ words v, word ∈ stateWords) :
    RuleStep r "state" v { r with states := words v }
  | translated {v : Value} {b : Bool} (h : asBool v = .ok b) :
    RuleStep r "translated" v { r with translated := b }
  | mac {v : Value} {mac lists : List String}
      (hread : ∀ word ∈ words v, hostListOf word = none → ∃ t, stationNormalize word = .ok t)
      (hmac : ∀ t, t ∈ mac ↔ t ∈ r.mac ∨
        ∃ word ∈ words v, hostListOf word = none ∧ stationNormalize word = .ok t)
      (hlists : ∀ n, n ∈ lists ↔ n ∈ r.macLists ∨ ∃ word ∈ words v, hostListOf word = some n) :
    RuleStep r "mac" v { r with mac, macLists := lists }
  | hours {v : Value} {text : String} {w : Schedule.Window} (h : asString v = .ok text)
      (hw : hoursParse text.toList = .ok w) :
    RuleStep r "hours" v { r with hours := some (String.ofList w.text) }
  | days {v : Value} (h : ∀ word ∈ words v, (dayOf word).isSome) :
    RuleStep r "days" v { r with days := weekOrder (words v) }

/-- A rule holds what its items say, with the host lists still to be resolved. -/
structure HoldsWritten (r : Rule) (name : String) (action : Action) (items : List Item) : Prop where
  name : r.name = name
  action : r.action = action
  protocol : r.protocol = ((keyValue "protocol" items).bind fun v =>
    (asString v >>= protocolOf).toOption).getD .any
  ports : r.ports = ((keyValue "port" items).map portNumbers).getD []
  sources : r.sources = ((keyValue "from" items).map words).getD []
  destinations : r.destinations = ((keyValue "to" items).map words).getD []
  interface : r.interface = (keyValue "interface" items).bind fun v => (asString v).toOption
  outInterface : r.outInterface =
    (keyValue "out_interface" items).bind fun v => (asString v).toOption
  states : r.states = ((keyValue "state" items).map words).getD []
  translated : r.translated =
    ((keyValue "translated" items).bind fun v => (asBool v).toOption).getD false
  hours : (asksOf r).hours = (keyValue "hours" items).bind fun v =>
    (asString v).toOption.bind fun text => (hoursParse text.toList).toOption
  days : r.days = weekOrder (((keyValue "days" items).map words).getD [])
  mac : ∀ t, t ∈ r.mac ↔
    ∃ word ∈ macWords items, hostListOf word = none ∧ stationNormalize word = .ok t
  macLists : ∀ n, n ∈ r.macLists ↔ ∃ word ∈ macWords items, hostListOf word = some n

/-- A rule as it is resolved, from the items it was lowered from. -/
structure Resolved (hook : ChainName) (lists : String → List String) (name : String)
    (action : Action) (items : List Item) (r : Rule) : Prop where
  lowered :
    ∃ r₀ mac names, HoldsWritten r₀ name action items ∧ r = { r₀ with mac, macLists := names }
  stations : ∀ t, t ∈ r.mac ↔
    ∃ word ∈ (macWords items).flatMap (macEntries lists), stationNormalize word = .ok t
  reads : ∀ word ∈ (macWords items).flatMap (macEntries lists), ∃ t, stationNormalize word = .ok t
  days : ∀ word ∈ ((keyValue "days" items).map words).getD [], (dayOf word).isSome
  sound : SoundRule hook r

theorem not_matches_of_empty {host : Host} {p : Packet} {hook : ChainName} {asks : Asks}
    (h : ¬Filled asks) : ¬asks.Matches host p hook := by
  intro hm
  have hchosen :
      ∀ {α : Type} {l : Option (List α)} {P : α → Prop}, Nft.Chosen l P → l ≠ some [] := by
    rintro α l P hc rfl
    simp [Nft.Chosen] at hc
  refine h ⟨hchosen hm.port, hchosen hm.source, hchosen hm.destination, hchosen hm.state,
    hchosen hm.station, fun hdays => ?_⟩
  have hholds := hm.schedule (.inr (by simp [hdays]))
  simp [Schedule.Window.Holds, DayAsked, Nft.Chosen, hdays] at hholds

/-! ## Stations, normalised -/

theorem hexDigit_lowerHex {c : Char} (h : hexDigit c = true) :
    hexDigit (lowerHex c) = true ∧ hexValue (lowerHex c) = hexValue c := by
  unfold lowerHex
  split_ifs with hup
  · have hlo : 65 ≤ c.toNat := hup.1
    have hhi : c.toNat ≤ 70 := hup.2
    have hc : c = Char.ofNat c.toNat := (Char.ofNat_toNat c).symm
    generalize c.toNat = n at hlo hhi hc
    subst hc
    interval_cases n <;> decide
  · exact ⟨h, rfl⟩

theorem octetsRead_ok {separator : Char} :
    ∀ {n : ℕ} {text : List Char} {octets : List (Char × Char)},
      octetsRead separator n text = .ok octets →
        ∃ raw : List (Char × Char), octets = raw.map (fun o => (lowerHex o.1, lowerHex o.2)) ∧
          raw.length = n ∧ (∀ o ∈ raw, hexDigit o.1 = true ∧ hexDigit o.2 = true) ∧
          ((∃ rest, text = raw.flatMap (fun o => [o.1, o.2, separator]) ++ rest) ∨
            n ≠ 0 ∧ text = (raw.flatMap fun o => [o.1, o.2, separator]).dropLast)
  | 0, text, octets, h => by
    cases h
    exact ⟨[], rfl, rfl, by simp, .inl ⟨text, rfl⟩⟩
  | n + 1, [], octets, h => by cases h
  | n + 1, [a], octets, h => by cases h
  | n + 1, a :: b :: rest, octets, h => by
    rw [octetsRead] at h
    split_ifs at h with hdigits
    obtain ⟨octets', hread, rfl⟩ := map_eq_ok.1 h
    obtain ⟨raw, rfl, hlen, hhex, htext⟩ := octetsRead_ok hread
    refine ⟨(a, b) :: raw, rfl, by simp [hlen], ?_, ?_⟩
    · simpa using ⟨⟨hdigits.1, hdigits.2.1⟩, fun x y => hhex (x, y)⟩
    · cases rest with
      | nil =>
        rcases htext with ⟨rest, htext⟩ | ⟨hn, htext⟩
        · -- nothing is left, so this was the last octet
          cases raw with
          | nil => exact .inr ⟨by simp, by simp⟩
          | cons o raw => simp at htext
        · exfalso
          cases raw with
          | nil => exact hn hlen.symm
          | cons o raw => simp [List.dropLast_cons_of_ne_nil] at htext
      | cons s rest =>
        have hs : s = separator := by simpa using hdigits.2.2
        subst hs
        simp only [List.drop_succ_cons, List.drop_zero] at htext
        rcases htext with ⟨tail, rfl⟩ | ⟨hn, rfl⟩
        · exact .inl ⟨tail, by simp⟩
        · refine .inr ⟨by simp, ?_⟩
          have hne : raw.flatMap (fun o => [o.1, o.2, s]) ≠ [] := by
            cases raw with
            | nil => exact absurd hlen.symm hn
            | cons o raw => simp
          rw [List.flatMap_cons, List.cons_append, List.cons_append, List.cons_append,
            List.nil_append, List.dropLast_cons_of_ne_nil (by simp),
            List.dropLast_cons_of_ne_nil (by simp), List.dropLast_cons_of_ne_nil hne]

theorem hexDigit_separatorOf (text : List Char) : hexDigit (separatorOf text) = false := by
  unfold separatorOf
  split_ifs <;> rfl

theorem octetsOf_filter {separator : Char} (hs : hexDigit separator = false)
    {raw : List (Char × Char)} (hraw : ∀ o ∈ raw, hexDigit o.1 = true ∧ hexDigit o.2 = true) :
    octetsOf ((raw.flatMap fun o => [o.1, o.2, separator]).filter hexDigit) = raw.map octetValue ∧
      octetsOf ((raw.flatMap fun o => [o.1, o.2, separator]).dropLast.filter hexDigit) =
        raw.map octetValue := by
  have hall : octetsOf ((raw.flatMap fun o => [o.1, o.2, separator]).filter hexDigit) =
      raw.map octetValue := by
    rw [filter_hexDigit_flatMap hs hraw, octetsOf_flatMap]
  refine ⟨hall, ?_⟩
  rw [← hall]
  -- the last character is a separator, which is no digit
  rcases List.eq_nil_or_concat' raw with rfl | ⟨os, o, rfl⟩
  · rfl
  · have ho := hraw o (by simp)
    rw [List.flatMap_append, List.dropLast_append_of_ne_nil (by simp), List.filter_append,
      List.filter_append]
    simp [hs, ho]

theorem octetValue_lowerHex {raw : List (Char × Char)}
    (hraw : ∀ o ∈ raw, hexDigit o.1 = true ∧ hexDigit o.2 = true) :
    (∀ o ∈ raw.map fun o => (lowerHex o.1, lowerHex o.2),
      hexDigit o.1 = true ∧ hexDigit o.2 = true) ∧
      (raw.map fun o => (lowerHex o.1, lowerHex o.2)).map octetValue = raw.map octetValue := by
  constructor
  · intro o ho
    obtain ⟨o', ho', rfl⟩ := List.mem_map.1 ho
    exact ⟨(hexDigit_lowerHex (hraw o' ho').1).1, (hexDigit_lowerHex (hraw o' ho').2).1⟩
  · rw [List.map_map]
    refine List.map_congr_left fun o ho => ?_
    simp only [Function.comp_apply, octetValue, (hexDigit_lowerHex (hraw o ho).1).2,
      (hexDigit_lowerHex (hraw o ho).2).2]

theorem stationNormalize_ok {word text : String} (h : stationNormalize word = .ok text) :
    NormalStation text ∧ stationOctets text = stationOctets word := by
  unfold stationNormalize at h
  have hsep := hexDigit_separatorOf word.toList
  split_ifs at h with hstar
  · simp only [stationPrefixNormalize] at h
    split_ifs at h with hbad
    push Not at hbad
    cases hread : octetsRead (separatorOf word.toList) 3 word.toList with
    | error shown => rw [hread] at h; cases h
    | ok octets =>
      rw [hread] at h
      obtain rfl := Except.ok.inj h
      obtain ⟨raw, rfl, hlen, hhex, hword⟩ := octetsRead_ok hread
      obtain ⟨hhex', hvalue⟩ := octetValue_lowerHex hhex
      have hflat : (raw.flatMap fun o => [o.1, o.2, separatorOf word.toList]).length = 9 := by
        simp [List.length_flatMap, hlen]
      obtain ⟨rest, hword⟩ : ∃ rest, word.toList =
          raw.flatMap (fun o => [o.1, o.2, separatorOf word.toList]) ++ rest := by
        refine hword.resolve_right fun hshort => ?_
        have := congrArg List.length hshort.2
        rw [List.length_dropLast, hflat, hbad.1] at this
        omega
      have hrest : rest = ['*'] := by
        have hlen' := congrArg List.length hword
        rw [List.length_append, hflat, hbad.1] at hlen'
        obtain ⟨c, rfl⟩ : ∃ c, rest = [c] := List.length_eq_one_iff.1 (by omega)
        have hlast := hbad.2.2
        rw [hword, List.getElem?_append_right (by omega), hflat] at hlast
        simpa using hlast
      refine ⟨⟨_, hhex', .inr ⟨by simpa using hlen, by simp⟩⟩, ?_⟩
      have hdigits : ['*'].filter hexDigit = [] := rfl
      rw [stationOctets, stationOctets, hword, hrest]
      simp only [String.toList_ofList, List.filter_append, hdigits, List.append_nil]
      rw [(octetsOf_filter hsep hhex).1, ← hvalue]
      exact (octetsOf_filter rfl hhex').1
  · simp only [stationAddressNormalize] at h
    split_ifs at h with hparts
    cases hread : octetsRead (separatorOf word.toList) 6 word.toList with
    | error shown => rw [hread] at h; cases h
    | ok octets =>
      rw [hread] at h
      obtain rfl := Except.ok.inj h
      obtain ⟨raw, rfl, hlen, hhex, hword⟩ := octetsRead_ok hread
      obtain ⟨hhex', hvalue⟩ := octetValue_lowerHex hhex
      have hcount : ∀ (sep : Char) (os : List (Char × Char)),
          os.length ≤ (os.flatMap fun o => [o.1, o.2, sep]).count sep := by
        intro sep os
        induction os with
        | nil => simp
        | cons o os ih =>
          have hone : 1 ≤ [o.1, o.2, sep].count sep := List.one_le_count_iff.2 (by simp)
          rw [List.flatMap_cons, List.count_append, List.length_cons]
          omega
      have hword : word.toList =
          (raw.flatMap fun o => [o.1, o.2, separatorOf word.toList]).dropLast := by
        rcases hword with ⟨rest, hrest⟩ | hword
        · exfalso
          have h1 := congrArg (List.count (separatorOf word.toList)) hrest
          have h2 := hcount (separatorOf word.toList) raw
          rw [List.count_append] at h1
          omega
        · exact hword.2
      refine ⟨⟨_, hhex', .inl ⟨by simpa using hlen, by simp⟩⟩, ?_⟩
      rw [stationOctets, stationOctets, hword]
      simp only [String.toList_ofList]
      rw [(octetsOf_filter hsep hhex).2, ← hvalue]
      exact (octetsOf_filter rfl hhex').2

/-! ## One key of a rule -/

theorem rulePorts_ok {r : Rule} {v : Value} (h : (rulePorts r v).2 = []) :
    RuleStep r "port" v (rulePorts r v).1 := by
  have hentries : ∀ (es : List Value) (r : Rule),
      (overItems (fun r entry => take r (portOf entry) fun port =>
        { r with ports := r.ports ++ [port] }) r es).2 = [] →
      (overItems (fun r entry => take r (portOf entry) fun port =>
        { r with ports := r.ports ++ [port] }) r es).1 =
          { r with ports := r.ports ++ es.filterMap fun
            | .number n => some n.toNat
            | _ => none } ∧
        ∀ port ∈ es.filterMap fun
          | .number n => some n.toNat
          | _ => none, port < 65536 := by
    intro es
    induction es with
    | nil => intro r _; simp
    | cons e es ih =>
      intro r hok
      rw [overItems_cons] at hok ⊢
      obtain ⟨he, hes⟩ := List.append_eq_nil_iff.1 hok
      obtain ⟨port, hport, hset⟩ := exists_of_take he
      rw [hset] at hes ⊢
      obtain ⟨heq, hlt⟩ := ih _ hes
      rw [heq]
      cases e with
      | number n =>
        rw [portOf] at hport
        split_ifs at hport with hrange
        obtain rfl := Except.ok.inj hport
        refine ⟨by simp, ?_⟩
        simp only [List.filterMap_cons, List.forall_mem_cons]
        exact ⟨by omega, hlt⟩
      | _ => cases hport
  obtain ⟨heq, hlt⟩ := hentries (entriesOf v) { r with ports := [] } h
  have hports : (rulePorts r v).1 = { r with ports := portNumbers v } := heq
  rw [hports]
  exact .port hlt

theorem ruleStates_ok {r : Rule} {v : Value} (h : (ruleStates r v).2 = []) :
    RuleStep r "state" v (ruleStates r v).1 := by
  unfold ruleStates at h ⊢
  dsimp only at h ⊢
  split at h
  · exact absurd h (by simp)
  case h_2 hfind =>
    rw [List.find?_eq_none] at hfind
    exact .state fun word hw => by simpa using hfind word hw

theorem ruleDays_ok {r : Rule} {v : Value} (h : (ruleDays r v).2 = []) :
    RuleStep r "days" v (ruleDays r v).1 := by
  unfold ruleDays at h ⊢
  dsimp only at h ⊢
  split at h
  · exact absurd h (by simp)
  case h_2 hfind =>
    rw [List.find?_eq_none] at hfind
    refine .days fun word hw => ?_
    have := hfind word hw
    rwa [Option.isNone_iff_eq_none, ← ne_eq, ← Option.isSome_iff_ne_none] at this

theorem ruleHours_ok {r : Rule} {v : Value} (h : (ruleHours r v).2 = []) :
    RuleStep r "hours" v (ruleHours r v).1 := by
  unfold ruleHours at h ⊢
  cases htext : asString v with
  | error why => rw [htext] at h; cases h
  | ok text =>
    cases hw : hoursParse text.toList with
    | error why => simp [htext, hw] at h
    | ok w =>
      simp only [hw]
      exact .hours htext hw

theorem macWord_ok {r : Rule} {word : String} (h : (macWord r word).2 = []) :
    (hostListOf word = none → ∃ t, stationNormalize word = .ok t) ∧
      (macWord r word).1 =
        { r with mac := (macWord r word).1.mac, macLists := (macWord r word).1.macLists } ∧
      (∀ t, t ∈ (macWord r word).1.mac ↔
        t ∈ r.mac ∨ hostListOf word = none ∧ stationNormalize word = .ok t) ∧
      ∀ n, n ∈ (macWord r word).1.macLists ↔ n ∈ r.macLists ∨ hostListOf word = some n := by
  unfold macWord at h ⊢
  cases hlist : hostListOf word with
  | some name =>
    rw [hlist] at h
    dsimp only at h ⊢
    split_ifs at h ⊢ with hbad hmem
    · refine ⟨by simp, rfl, by simp, fun n => ⟨.inl, ?_⟩⟩
      rintro (hn | hn)
      · exact hn
      · obtain rfl := Option.some_inj.1 hn
        exact hmem
    · refine ⟨by simp, rfl, by simp, fun n => ?_⟩
      simp [eq_comm]
  | none =>
    rw [hlist] at h
    cases hstation : stationNormalize word with
    | error why => rw [hstation] at h; cases h
    | ok station =>
      dsimp only
      split_ifs with hmem
      · refine ⟨by simp, rfl, fun t => ⟨.inl, ?_⟩, by simp⟩
        rintro (ht | ⟨-, ht⟩)
        · exact ht
        · obtain rfl := Except.ok.inj ht
          exact hmem
      · refine ⟨by simp, rfl, fun t => ?_, by simp⟩
        simp [eq_comm]

theorem ruleMacs_ok {r : Rule} {v : Value} (h : (ruleMacs r v).2 = []) :
    RuleStep r "mac" v (ruleMacs r v).1 := by
  have hok : (overItems macWord r (words v)).2 = [] := (List.append_eq_nil_iff.1 h).2
  have hread : ∀ word ∈ words v, hostListOf word = none → ∃ t, stationNormalize word = .ok t := by
    intro word hw
    obtain ⟨r', hr'⟩ := overItems_ok hok word hw
    exact (macWord_ok hr').1
  have hmac : ∀ t, t ∈ (overItems macWord r (words v)).1.mac ↔ t ∈ r.mac ∨
      ∃ word ∈ words v, hostListOf word = none ∧ stationNormalize word = .ok t := fun t =>
    overItems_some (P := fun r => t ∈ r.mac) (fun _ _ hw => (macWord_ok hw).2.2.1 t) (words v) r hok
  have hlists : ∀ n, n ∈ (overItems macWord r (words v)).1.macLists ↔
      n ∈ r.macLists ∨ ∃ word ∈ words v, hostListOf word = some n := fun n =>
    overItems_some (P := fun r => n ∈ r.macLists) (fun _ _ hw => (macWord_ok hw).2.2.2 n) (words v)
      r hok
  obtain ⟨mac, lists, hframe⟩ : ∃ mac lists, (overItems macWord r (words v)).1 =
      { r with mac, macLists := lists } := by
    refine overItems_invariant_ok
      (P := fun r' => ∃ mac lists, r' = { r with mac, macLists := lists })
      ?_ (words v) hok ⟨r.mac, r.macLists, rfl⟩
    rintro _ word hw ⟨mac, lists, rfl⟩
    exact ⟨_, _, (macWord_ok hw).2.1⟩
  have heq : (ruleMacs r v).1 = (overItems macWord r (words v)).1 := rfl
  rw [hframe] at hmac hlists heq
  rw [heq]
  exact .mac hread hmac hlists

theorem asInterfaceName_ok {v : Value} {name : String} (h : asInterfaceName v = .ok name) :
    asString v = .ok name ∧ usableName name = none := by
  unfold asInterfaceName at h
  cases hv : asString v with
  | error why => rw [hv] at h; cases h
  | ok text =>
    rw [hv] at h
    cases hname : usableName text with
    | some why => simp [hname] at h
    | none =>
      simp only [hname, Except.ok.injEq] at h
      subst h
      exact ⟨rfl, hname⟩

theorem ite_ok {α : Type*} {S : α → Prop} {c : Prop} [Decidable c] {t e : α × List String}
    (ht : c → t.2 = [] → S t.1) (he : ¬c → e.2 = [] → S e.1) :
    (if c then t else e).2 = [] → S (if c then t else e).1 := by
  split_ifs with h
  · exact ht h
  · exact he h

theorem ruleStep_of_ok {r : Rule} {key : String} {v : Value} :
    (ruleKey r key v).2 = [] → RuleStep r key v (ruleKey r key v).1 := by
  unfold ruleKey
  refine ite_ok (S := RuleStep r key v) ?_ fun _ => ?_
  · rintro rfl h
    obtain ⟨p, hp, heq⟩ := exists_of_take h
    rw [heq]
    exact .protocol hp
  refine ite_ok (S := RuleStep r key v) ?_ fun _ => ?_
  · rintro rfl h
    exact rulePorts_ok h
  refine ite_ok (S := RuleStep r key v) ?_ fun _ => ?_
  · rintro rfl _
    exact .source
  refine ite_ok (S := RuleStep r key v) ?_ fun _ => ?_
  · rintro rfl _
    exact .destination
  refine ite_ok (S := RuleStep r key v) ?_ fun _ => ?_
  · rintro rfl h
    obtain ⟨name, hname, heq⟩ := exists_of_takeOrClear h
    rw [heq]
    exact .interface (asInterfaceName_ok hname).1 (asInterfaceName_ok hname).2
  refine ite_ok (S := RuleStep r key v) ?_ fun _ => ?_
  · rintro rfl h
    obtain ⟨name, hname, heq⟩ := exists_of_takeOrClear h
    rw [heq]
    exact .outInterface (asInterfaceName_ok hname).1 (asInterfaceName_ok hname).2
  refine ite_ok (S := RuleStep r key v) ?_ fun _ => ?_
  · rintro rfl h
    exact ruleStates_ok h
  refine ite_ok (S := RuleStep r key v) ?_ fun _ => ?_
  · rintro rfl h
    obtain ⟨b, hb, heq⟩ := exists_of_take h
    rw [heq]
    exact .translated hb
  refine ite_ok (S := RuleStep r key v) ?_ fun _ => ?_
  · rintro rfl h
    exact ruleMacs_ok h
  refine ite_ok (S := RuleStep r key v) ?_ fun _ => ?_
  · rintro rfl h
    exact ruleHours_ok h
  refine ite_ok (S := RuleStep r key v) ?_ fun _ h => ?_
  · rintro rfl h
    exact ruleDays_ok h
  · cases h

theorem ruleItem_ok {r : Rule} {i : Item} (h : (ruleItem r i).2 = []) :
    (∃ key v, i = .assignment key v ∧ RuleStep r key v (ruleItem r i).1) ∨
      (∀ key, assigned key i = none) ∧ (ruleItem r i).1 = r := by
  cases i with
  | assignment key v => exact .inl ⟨key, v, rfl, ruleStep_of_ok h⟩
  | block head label overrides items => cases h
  | hook phase body => exact .inr ⟨fun _ => rfl, rfl⟩
  | incl path => exact .inr ⟨fun _ => rfl, rfl⟩

/-! ## The rule -/

section Fields

variable {r : Rule} {name : String} {action : Action} {items : List Item}

theorem field_of_ok {γ : Type*} (field : Rule → γ) (key : String) (f : Value → γ)
    (hstep : ∀ {r : Rule} {k : String} {v : Value} {r' : Rule}, RuleStep r k v r' →
      field r' = if k = key then f v else field r)
    (hok : (overItems ruleItem { name, action } items).2 = []) :
    field (overItems ruleItem { name, action } items).1 =
      ((keyValue key items).map f).getD (field { name, action }) := by
  rw [keyValue, ← lastSome_map]
  refine overItems_last field _ (fun r i hi => ?_) items _ hok
  rcases ruleItem_ok hi with ⟨k, v, rfl, hs⟩ | ⟨hnone, heq⟩
  · rw [hstep hs, assigned]
    split_ifs <;> rfl
  · rw [hnone, heq]
    rfl

theorem rule_invariant {P : Rule → Prop}
    (hstep : ∀ {r : Rule} {k : String} {v : Value} {r' : Rule}, RuleStep r k v r' → P r → P r')
    (hok : (overItems ruleItem { name, action } items).2 = []) (h : P { name, action }) :
    P (overItems ruleItem { name, action } items).1 := by
  refine overItems_invariant_ok (fun r i hi hr => ?_) items hok h
  rcases ruleItem_ok hi with ⟨k, v, rfl, hs⟩ | ⟨-, heq⟩
  · exact hstep hs hr
  · rwa [heq]

theorem mac_of_ok {P : Rule → Prop} {Q : String → Prop}
    (hstep : ∀ {r : Rule} {k : String} {v : Value} {r' : Rule}, RuleStep r k v r' →
      (P r' ↔ P r ∨ k = "mac" ∧ ∃ word ∈ words v, Q word))
    (hok : (overItems ruleItem { name, action } items).2 = []) :
    P (overItems ruleItem { name, action } items).1 ↔
      P { name, action } ∨ ∃ word ∈ macWords items, Q word := by
  have hitem : ∀ (r : Rule) (i : Item), (ruleItem r i).2 = [] → (P (ruleItem r i).1 ↔
      P r ∨ ∃ v ∈ assigned "mac" i, ∃ word ∈ words v, Q word) := by
    intro r i hi
    rcases ruleItem_ok hi with ⟨k, v, rfl, hs⟩ | ⟨hnone, heq⟩
    · rw [hstep hs, assigned]
      split_ifs with hk <;> simp [hk]
    · rw [hnone, heq]
      simp
  rw [overItems_some hitem items _ hok]
  refine or_congr_right ⟨?_, ?_⟩
  · rintro ⟨i, hi, v, hv, word, hw, hq⟩
    exact ⟨word, List.mem_flatMap.2 ⟨v, List.mem_filterMap.2 ⟨i, hi, hv⟩, hw⟩, hq⟩
  · rintro ⟨word, hw, hq⟩
    obtain ⟨v, hv, hw⟩ := List.mem_flatMap.1 hw
    obtain ⟨i, hi, hv⟩ := List.mem_filterMap.1 hv
    exact ⟨i, hi, v, hv, word, hw, hq⟩

theorem bind_getD {α β : Type*} (o : Option α) (f : α → Option β) (b : β) :
    (o.bind f).getD b = (o.map fun a => (f a).getD b).getD b := by
  cases o <;> rfl

theorem bind_eq_map_getD {α β : Type*} (o : Option α) (f : α → Option β) :
    o.bind f = (o.map f).getD none := by
  cases o <;> rfl

theorem holdsWritten_of_ok (hok : (overItems ruleItem { name, action } items).2 = []) :
    HoldsWritten (overItems ruleItem { name, action } items).1 name action items where
  name :=
    rule_invariant (P := fun r => r.name = name) (fun hs hr => by cases hs <;> exact hr) hok rfl
  action := rule_invariant (P := fun r => r.action = action) (fun hs hr => by cases hs <;> exact hr)
    hok rfl
  protocol := by
    rw [bind_getD]
    refine field_of_ok (·.protocol) "protocol" _ (fun hs => ?_) hok
    cases hs <;> simp_all [Except.toOption]
  ports := field_of_ok (·.ports) "port" _ (fun hs => by cases hs <;> simp) hok
  sources := field_of_ok (·.sources) "from" _ (fun hs => by cases hs <;> simp) hok
  destinations := field_of_ok (·.destinations) "to" _ (fun hs => by cases hs <;> simp) hok
  interface := by
    rw [bind_eq_map_getD]
    refine field_of_ok (·.interface) "interface" _ (fun hs => ?_) hok
    cases hs <;> simp_all [Except.toOption]
  outInterface := by
    rw [bind_eq_map_getD]
    refine field_of_ok (·.outInterface) "out_interface" _ (fun hs => ?_) hok
    cases hs <;> simp_all [Except.toOption]
  states := field_of_ok (·.states) "state" _ (fun hs => by cases hs <;> simp) hok
  translated := by
    rw [bind_getD]
    refine field_of_ok (·.translated) "translated" _ (fun hs => ?_) hok
    cases hs <;> simp_all [Except.toOption]
  hours := by
    rw [bind_eq_map_getD]
    refine field_of_ok (fun r => (asksOf r).hours) "hours" _ (fun hs => ?_) hok
    cases hs
    case hours text w hw h =>
      simp [asksOf, h, hw, hoursParse_text (written_of_hoursParse hw), Except.toOption]
    all_goals simp [asksOf]
  days := by
    have hdays := field_of_ok (·.days) "days"
      (fun v => weekOrder (words v)) (fun hs => by cases hs <;> simp) hok
    refine hdays.trans ?_
    cases keyValue "days" items <;> rfl
  mac := fun t => by
    have hmac := mac_of_ok (P := fun r => t ∈ r.mac) (Q := fun word => hostListOf word = none ∧
        stationNormalize word = .ok t) (fun hs => by cases hs <;> simp_all) hok
    simpa using hmac
  macLists := fun n => by
    have hlists :=
      mac_of_ok (P := fun r => n ∈ r.macLists) (Q := fun word => hostListOf word = some n)
      (fun hs => by cases hs <;> simp_all) hok
    simpa using hlists

theorem nul_notMem_of_asString {v : Value} {text : String} (h : asString v = .ok text) :
    '\x00' ∉ text.toList := by
  cases v with
  | string s =>
    obtain rfl := Except.ok.inj h
    intro hmem
    rw [String.toList_ofList] at hmem
    simpa using List.all_eq_true.1 List.all_takeWhile _ hmem
  | _ => cases h

theorem cBytes_of_usableName {v : Value} {text : String} (h : asString v = .ok text)
    (hname : usableName text = none) : 0 ∉ cBytes text ∧ (cBytes text).length < 16 := by
  refine ⟨zero_notMem_cBytes (nul_notMem_of_asString h), ?_⟩
  rw [length_cBytes]
  unfold usableName at hname
  split_ifs at hname with _ hlong
  omega

theorem isSome_of_mem_weekOrder {words : List String} {word : String} (h : word ∈ weekOrder words) :
    (dayOf word).isSome := by
  obtain ⟨d, hd, rfl⟩ := List.mem_map.1 h
  have hlt : d < 7 := by
    have := (List.mem_filter.1 hd).1
    simp at this
    omega
  rw [dayOf_dayWord hlt]
  rfl

theorem sound_of_ok (hok : (overItems ruleItem { name, action } items).2 = []) :
    SoundRule .forward (overItems ruleItem { name, action } items).1 := by
  refine rule_invariant (fun hs hr => ?_) hok ?_
  · cases hs with
    | protocol h => exact { hr with }
    | port h => exact { hr with ports := h }
    | source => exact { hr with }
    | destination => exact { hr with }
    | interface h hname =>
      refine { hr with interface := ?_ }
      rintro _ ⟨rfl⟩
      exact cBytes_of_usableName h hname
    | outInterface h hname =>
      refine { hr with outInterface := ?_ }
      rintro _ ⟨rfl⟩
      exact ⟨rfl, cBytes_of_usableName h hname⟩
    | state h => exact { hr with states := h }
    | translated h => exact { hr with }
    | mac hread hmac hlists =>
      refine { hr with stations := fun t ht => ?_ }
      rcases (hmac t).1 ht with ht | ⟨word, -, -, hword⟩
      · exact hr.stations t ht
      · exact (stationNormalize_ok hword).1
    | hours h hw =>
      refine { hr with hours := ?_ }
      rintro _ ⟨rfl⟩
      exact ⟨_, written_of_hoursParse hw, by simp⟩
    | days h => exact { hr with days := fun word hw => isSome_of_mem_weekOrder hw }
  · constructor <;> simp

theorem ruleStep_of_assigned (hok : (overItems ruleItem { name, action } items).2 = []) {i : Item}
    (hi : i ∈ items) {key : String} {v : Value} (hv : assigned key i = some v) :
    ∃ r r' k, k = key ∧ RuleStep r k v r' := by
  obtain ⟨r, hr⟩ := overItems_ok hok i hi
  rcases ruleItem_ok hr with ⟨k, v', rfl, hs⟩ | ⟨hnone, -⟩
  · rw [assigned] at hv
    split_ifs at hv with hk
    obtain rfl := Option.some_inj.1 hv
    exact ⟨r, _, k, hk, hs⟩
  · rw [hnone] at hv
    cases hv

theorem station_of_ok (hok : (overItems ruleItem { name, action } items).2 = []) :
    ∀ word ∈ macWords items, hostListOf word = none → ∃ t, stationNormalize word = .ok t := by
  intro word hw
  obtain ⟨v, hv, hw⟩ := List.mem_flatMap.1 hw
  obtain ⟨i, hi, hv⟩ := List.mem_filterMap.1 hv
  obtain ⟨r, r', k, hk, hs⟩ := ruleStep_of_assigned hok hi hv
  cases hs with
  | mac hread => exact hread word hw
  | _ => simp at hk

theorem day_of_ok (hok : (overItems ruleItem { name, action } items).2 = []) :
    ∀ word ∈ ((keyValue "days" items).map words).getD [], (dayOf word).isSome := by
  cases hd : keyValue "days" items with
  | none => simp
  | some v =>
    obtain ⟨i, hi, hv⟩ := exists_of_lastSome hd
    obtain ⟨r, r', k, hk, hs⟩ := ruleStep_of_assigned hok hi hv
    cases hs with
    | days h => exact h
    | _ => simp at hk

end Fields

/-! ## Resolving the host lists -/

section Resolving

variable {hook : ChainName} {lists : List HostList} {r : Rule}

theorem mem_addNew {α : Type*} [DecidableEq α] {t : α} :
    ∀ (new old : List α),
      t ∈ new.foldl (fun mac m => if m ∈ mac then mac else mac ++ [m]) old ↔ t ∈ old ∨ t ∈ new
  | [], old => by simp
  | m :: new, old => by
    rw [List.foldl_cons, mem_addNew new]
    split_ifs with hm
    · constructor
      · rintro (ht | ht)
        · exact .inl ht
        · exact .inr (List.mem_cons_of_mem _ ht)
      · rintro (ht | ht)
        · exact .inl ht
        · rcases List.mem_cons.1 ht with rfl | ht
          · exact .inl hm
          · exact .inr ht
    · simp [or_assoc]

theorem mem_sortSet {t : String} {items : List String} : t ∈ sortSet items ↔ t ∈ items := by
  rw [sortSet, List.mem_dedup, List.mem_mergeSort]

theorem resolveList_ok {name : String} (h : (resolveList hook lists r name).2 = []) :
    ∃ l, findHostList lists name = some l ∧ (resolveList hook lists r name).1 = { r with
      mac := l.mac.foldl (fun mac m => if m ∈ mac then mac else mac ++ [m]) r.mac } := by
  unfold resolveList at h ⊢
  cases hl : findHostList lists name with
  | none => rw [hl] at h; cases h
  | some l => exact ⟨l, rfl, rfl⟩

theorem resolveRule_ok (h : (resolveRule hook lists r).2 = []) :
    (∃ mac names, (resolveRule hook lists r).1 = { r with mac, macLists := names }) ∧
      (∀ n ∈ r.macLists, ∃ l, findHostList lists n = some l) ∧
      ∀ t, t ∈ (resolveRule hook lists r).1.mac ↔
        t ∈ r.mac ∨ ∃ n ∈ r.macLists, ∃ l ∈ findHostList lists n, t ∈ l.mac := by
  have hok : (overItems (resolveList hook lists) r r.macLists).2 = [] := h
  refine ⟨?_, fun n hn => ?_, fun t => ?_⟩
  · obtain ⟨mac, hframe⟩ : ∃ mac, (overItems (resolveList hook lists) r r.macLists).1 =
        { r with mac } := by
      refine overItems_invariant_ok (P := fun r' => ∃ mac, r' = { r with mac }) ?_ r.macLists hok
        ⟨r.mac, rfl⟩
      rintro _ n hn ⟨mac, rfl⟩
      obtain ⟨l, -, heq⟩ := resolveList_ok hn
      exact ⟨_, heq⟩
    refine ⟨sortSet mac, sortSet r.macLists, ?_⟩
    simp only [resolveRule, hframe]
  · obtain ⟨r', hr'⟩ := overItems_ok hok n hn
    obtain ⟨l, hl, -⟩ := resolveList_ok hr'
    exact ⟨l, hl⟩
  · have hmem := overItems_some (P := fun r => t ∈ r.mac)
      (Q := fun n => ∃ l ∈ findHostList lists n, t ∈ l.mac) (fun r' n hn => by
        obtain ⟨l, hl, heq⟩ := resolveList_ok hn
        rw [heq, hl]
        simp [mem_addNew]) r.macLists r hok
    rw [← hmem]
    exact mem_sortSet

end Resolving

/-! ## What is written and what is resolved -/

section Meaning

variable {host : Host} {hook : ChainName} {r r' : Rule} {name : String} {action : Action}
  {items : List Item} {lists : String → List String}

theorem chosen_listed_getD {α : Type*} {o : Option (List α)} {P : α → Prop} (h : o ≠ some []) :
    Nft.Chosen (listed (o.getD [])) P ↔ Nft.Chosen o P := by
  cases o with
  | none => simp [Nft.Chosen, listed]
  | some l =>
    have hl : l ≠ [] := fun hl => h (by rw [hl])
    simp [Nft.Chosen, listed, hl]

theorem exists_weekOrder {words : List String} {day : ℤ} :
    (∃ word ∈ weekOrder words, ∃ d : ℕ, dayOf word = some d ∧ (d : ℤ) = day) ↔
      ∃ word ∈ words, ∃ d : ℕ, dayOf word = some d ∧ (d : ℤ) = day := by
  constructor
  · rintro ⟨_, hmem, d, hd, hday⟩
    obtain ⟨d', hd', rfl⟩ := List.mem_map.1 hmem
    obtain ⟨hrange, hany⟩ := List.mem_filter.1 hd'
    have hlt : d' < 7 := by
      simp at hrange
      omega
    rw [dayOf_dayWord hlt, Option.some.injEq] at hd
    subst hd
    obtain ⟨word, hw, heq⟩ := List.any_eq_true.1 hany
    exact ⟨word, hw, d', by simpa using heq, hday⟩
  · rintro ⟨word, hw, d, hd, hday⟩
    have hlt := dayOf_lt hd
    refine ⟨dayWord d, List.mem_map.2 ⟨d, List.mem_filter.2 ⟨?_, ?_⟩, rfl⟩, d, dayOf_dayWord hlt,
      hday⟩
    · interval_cases d <;> simp
    · exact List.any_eq_true.2 ⟨word, hw, by simpa using hd⟩

theorem dayAsked_weekOrder {o : Option (List String)} (h : o ≠ some [])
    (hwords : ∀ word ∈ o.getD [], (dayOf word).isSome) (day : ℤ) :
    DayAsked (listed (weekOrder (o.getD []))) day ↔ DayAsked o day := by
  cases o with
  | none => simp [DayAsked, Nft.Chosen, listed, weekOrder]
  | some l =>
    obtain ⟨word, hw⟩ := List.exists_mem_of_ne_nil l fun hl => h (by rw [hl])
    obtain ⟨d, hd⟩ := Option.isSome_iff_exists.1 (hwords word hw)
    obtain ⟨word', hword', -⟩ := exists_weekOrder.2 ⟨word, hw, d, hd, rfl⟩
    have hne : weekOrder l ≠ [] := List.ne_nil_of_mem hword'
    have hlisted : listed (weekOrder l) = some (weekOrder l) := by simp [listed, hne]
    simp only [Option.getD_some, DayAsked, hlisted, Nft.Chosen, Option.mem_def, Option.some.injEq,
      forall_eq', exists_weekOrder]

theorem sentBy_congr {word text : String} (h : stationNormalize word = .ok text) (p : Packet) :
    SentBy p text ↔ SentBy p word := by
  unfold SentBy
  rw [(stationNormalize_ok h).2]

theorem Resolved.chosen_stations (h : Resolved hook lists name action items r)
    (hne : writtenStations lists items ≠ some []) (p : Packet) :
    Nft.Chosen (listed r.mac) (SentBy p) ↔ Nft.Chosen (writtenStations lists items) (SentBy p) := by
  unfold writtenStations at hne ⊢
  split_ifs at hne ⊢ with hnone
  · have hmac : r.mac = [] := by
      refine List.eq_nil_iff_forall_not_mem.2 fun t ht => ?_
      obtain ⟨word, hw, -⟩ := (h.stations t).1 ht
      simp [macWords, List.isEmpty_iff.1 hnone] at hw
    simp [hmac, listed, Nft.Chosen]
  · have hwords : (macWords items).flatMap (macEntries lists) ≠ [] := fun hl => hne (by rw [hl])
    obtain ⟨word, hw⟩ := List.exists_mem_of_ne_nil _ hwords
    obtain ⟨t, ht⟩ := h.reads word hw
    have hmac : r.mac ≠ [] := List.ne_nil_of_mem ((h.stations t).2 ⟨word, hw, ht⟩)
    have hlisted : listed r.mac = some r.mac := by simp [listed, hmac]
    simp only [hlisted, Nft.Chosen, Option.mem_def, Option.some.injEq, forall_eq']
    constructor
    · rintro ⟨t, ht, hs⟩
      obtain ⟨word, hw, hword⟩ := (h.stations t).1 ht
      exact ⟨word, hw, (sentBy_congr hword p).1 hs⟩
    · rintro ⟨word, hw, hs⟩
      obtain ⟨t, ht⟩ := h.reads word hw
      exact ⟨t, (h.stations t).2 ⟨word, hw, ht⟩, (sentBy_congr ht p).2 hs⟩

theorem isSome_listed_weekOrder {o : Option (List String)} (h : o ≠ some [])
    (hwords : ∀ word ∈ o.getD [], (dayOf word).isSome) :
    (listed (weekOrder (o.getD []))).isSome ↔ o.isSome := by
  cases o with
  | none => simp [listed, weekOrder]
  | some l =>
    obtain ⟨word, hw⟩ := List.exists_mem_of_ne_nil l fun hl => h (by rw [hl])
    obtain ⟨d, hd⟩ := Option.isSome_iff_exists.1 (hwords word hw)
    obtain ⟨word', hword', -⟩ := exists_weekOrder.2 ⟨word, hw, d, hd, rfl⟩
    simp [listed, List.ne_nil_of_mem hword']

theorem Resolved.matches_written_iff (h : Resolved hook lists name action items r)
    (hfilled : Filled (writtenAsks lists items)) (p : Packet) :
    (asksOf r).Matches host p hook ↔ (writtenAsks lists items).Matches host p hook := by
  obtain ⟨r₀, mac, names, hr₀, heq⟩ := h.lowered
  have hstations := h.chosen_stations hfilled.stations p
  have hdays := dayAsked_weekOrder hfilled.days h.days
  have hasked := isSome_listed_weekOrder hfilled.days h.days
  have hprotocol : r.protocol = (writtenAsks lists items).protocol := heq ▸ hr₀.protocol
  have hports : r.ports = (writtenAsks lists items).ports.getD [] := heq ▸ hr₀.ports
  have hsources : r.sources = (writtenAsks lists items).sources.getD [] := heq ▸ hr₀.sources
  have hdestinations : r.destinations = (writtenAsks lists items).destinations.getD [] :=
    heq ▸ hr₀.destinations
  have hinterface : r.interface = (writtenAsks lists items).interface := heq ▸ hr₀.interface
  have houtInterface : r.outInterface = (writtenAsks lists items).outInterface :=
    heq ▸ hr₀.outInterface
  have hstates : r.states = (writtenAsks lists items).states.getD [] := heq ▸ hr₀.states
  have htranslated : r.translated = (writtenAsks lists items).translated := heq ▸ hr₀.translated
  have hhours : (asksOf r).hours = (writtenAsks lists items).hours := heq ▸ hr₀.hours
  have hweek : r.days = weekOrder ((writtenAsks lists items).days.getD []) := heq ▸ hr₀.days
  have hlocal : 0 ≤ localDay host.offset p.day p.second ∧
      localDay host.offset p.day p.second < 7 := by
    unfold localDay
    omega
  have hschedule : ((asksOf r).hours.isSome ∨ (asksOf r).days.isSome →
      ((asksOf r).hours.getD ⟨0, 86400⟩).Holds (DayAsked (asksOf r).days)
        (localDay host.offset p.day p.second) (localSecond host.offset p.second)) ↔
      ((writtenAsks lists items).hours.isSome ∨ (writtenAsks lists items).days.isSome →
        ((writtenAsks lists items).hours.getD ⟨0, 86400⟩).Holds
          (DayAsked (writtenAsks lists items).days)
          (localDay host.offset p.day p.second) (localSecond host.offset p.second)) := by
    have hd : (asksOf r).days = listed (weekOrder ((writtenAsks lists items).days.getD [])) := by
      rw [asksOf, hweek]
    rw [hhours, hd, hasked, Schedule.Window.holds_congr hlocal fun d _ _ => hdays d]
  constructor
  · intro hm
    exact ⟨hprotocol ▸ hm.protocol, (chosen_listed_getD hfilled.ports).1 (hports ▸ hm.port),
      (chosen_listed_getD hfilled.sources).1 (hsources ▸ hm.source),
      (chosen_listed_getD hfilled.destinations).1 (hdestinations ▸ hm.destination),
      hinterface ▸ hm.interface, houtInterface ▸ hm.outInterface,
      (chosen_listed_getD hfilled.states).1 (hstates ▸ hm.state), htranslated ▸ hm.translated,
      hstations.1 hm.station, hschedule.1 hm.schedule⟩
  · intro hm
    refine ⟨?_, ?_, ?_, ?_, ?_, ?_, ?_, ?_, hstations.2 hm.station, hschedule.2 hm.schedule⟩
    · simpa only [asksOf, hprotocol] using hm.protocol
    · simpa only [asksOf, hports] using (chosen_listed_getD hfilled.ports).2 hm.port
    · simpa only [asksOf, hsources] using (chosen_listed_getD hfilled.sources).2 hm.source
    · simpa only [asksOf, hdestinations] using
        (chosen_listed_getD hfilled.destinations).2 hm.destination
    · simpa only [asksOf, hinterface] using hm.interface
    · simpa only [asksOf, houtInterface] using hm.outInterface
    · simpa only [asksOf, hstates] using (chosen_listed_getD hfilled.states).2 hm.state
    · simpa only [asksOf, htranslated] using hm.translated

end Meaning

end Netcfgd.Compile
