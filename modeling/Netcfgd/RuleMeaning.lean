import Netcfgd.NftBuild

/-!
# What a rule of the firewall means

The rule of a document asks things of a packet (`Asks`) : every key it has is a constraint, a key
with a list is met by any of its values. `Asks.Matches` says when a packet meets all of them, in
the terms of the packet and of the words of the rule, before any expression is made.

The builder expands the lists into rules of one value each, with the pairs of a source and a
destination of two families left out. `ruleMessages_match` is the point : a packet meets the rule
exactly where one of the rules it was expanded into runs to a verdict, and that verdict is the
rule's. `exists_match_of_ruleMessages` says that each rule of the kernel is met by some packet.
-/

namespace Netcfgd.Nft

open Compile Schedule Nftables

/-! ## Asking -/

/-- What a rule asks of a packet. A list is a choice : no list is no constraint, and nothing meets
an empty one. -/
structure Asks where
  protocol : Protocol
  ports : Option (List ℕ)
  sources : Option (List String)
  destinations : Option (List String)
  interface : Option String
  outInterface : Option String
  states : Option (List String)
  translated : Bool
  stations : Option (List String)
  hours : Option Schedule.Window
  days : Option (List String)

def Chosen {α : Type*} (values : Option (List α)) (P : α → Prop) : Prop :=
  ∀ l ∈ values, ∃ a ∈ l, P a

def octetsOf : List Char → Bytes
  | a :: b :: rest => UInt8.ofNat (hexValue a * 16 + hexValue b) :: octetsOf rest
  | _ => []

def stationOctets (text : String) : Bytes := octetsOf (text.toList.filter hexDigit)

section Packets

variable (host : Host) (p : Packet)

def ComesFrom (text : String) : Prop :=
  ∃ a, parseAddress host text = .ok a ∧ a.family = p.family ∧ SamePrefix a.count p.source a.bytes

def GoesTo (text : String) : Prop :=
  ∃ a, parseAddress host text = .ok a ∧ a.family = p.family ∧
    SamePrefix a.count p.destination a.bytes

def SentBy (text : String) : Prop :=
  ∃ s ∈ p.station, s.take (stationOctets text).length = stationOctets text

def DayAsked (days : Option (List String)) (day : ℤ) : Prop :=
  Chosen days fun word => ∃ d : ℕ, dayOf word = some d ∧ (d : ℤ) = day

/-- The packet meets what a rule of a chain asks. -/
structure Asks.Matches (hook : ChainName) (asks : Asks) : Prop where
  protocol : asks.protocol ≠ .any → p.protocol = protocolNumber asks.protocol
  port : Chosen asks.ports fun port => p.destinationPort = some port
  source : Chosen asks.sources (ComesFrom host p)
  destination : Chosen asks.destinations (GoesTo host p)
  interface : ∀ name ∈ asks.interface,
    (if hook = .output then p.oifname else p.iifname).bytes = cBytes name
  outInterface : ∀ name ∈ asks.outInterface, p.oifname.bytes = cBytes name
  state : Chosen asks.states fun word => stateOf word = some p.state
  translated : asks.translated → p.status.toNat &&& dstNat ≠ 0
  station : Chosen asks.stations (SentBy p)
  schedule : asks.hours.isSome ∨ asks.days.isSome →
    (asks.hours.getD ⟨0, 86400⟩).Holds (DayAsked asks.days)
      (localDay host.offset p.day p.second) (localSecond host.offset p.second)

end Packets

def listed {α : Type*} (l : List α) : Option (List α) := if l.isEmpty then none else some l

/-- What a rule asks of a packet. -/
def asksOf (r : Rule) : Asks where
  protocol := r.protocol
  ports := listed r.ports
  sources := listed r.sources
  destinations := listed r.destinations
  interface := r.interface
  outInterface := r.outInterface
  states := listed r.states
  translated := r.translated
  stations := listed r.mac
  hours := r.hours.bind fun text => (hoursParse text.toList).toOption
  days := listed r.days

def verdictOf : Compile.Action → Verdict
  | .accept => .accept
  | .drop => .drop
  | .reject => .reject

/-- A station in its normal spelling, of six octets or of three and a star. -/
def NormalStation (text : String) : Prop :=
  ∃ octets : List (Char × Char), (∀ o ∈ octets, hexDigit o.1 = true ∧ hexDigit o.2 = true) ∧
    (octets.length = 6 ∧ text.toList = (octetsText octets).dropLast ∨
      octets.length = 3 ∧ text.toList = octetsText octets ++ ['*'])

/-- What the compiler promises of a rule in a chain. -/
structure SoundRule (hook : ChainName) (r : Rule) : Prop where
  ports : ∀ port ∈ r.ports, port < 65536
  interface : ∀ name ∈ r.interface, 0 ∉ cBytes name ∧ (cBytes name).length < 16
  outInterface : ∀ name ∈ r.outInterface,
    hook = .forward ∧ 0 ∉ cBytes name ∧ (cBytes name).length < 16
  states : ∀ word ∈ r.states, word ∈ stateWords
  stations : ∀ text ∈ r.mac, NormalStation text
  hours : ∀ text ∈ r.hours, ∃ w : Schedule.Window, w.Written ∧ text.toList = w.text
  days : ∀ word ∈ r.days, (dayOf word).isSome

/-- The part of a rule that is not a list of values. -/
structure FixedMatch (hook : ChainName) (r : Rule) (p : Packet) : Prop where
  protocol : r.protocol ≠ .any → p.protocol = protocolNumber r.protocol
  interface : ∀ name ∈ r.interface,
    (if hook = .output then p.oifname else p.iifname).bytes = cBytes name
  outInterface : ∀ name ∈ r.outInterface, p.oifname.bytes = cBytes name
  state : Chosen (listed r.states) fun word => stateOf word = some p.state
  translated : r.translated → p.status.toNat &&& dstNat ≠ 0

/-- A packet meets the values of a combination. -/
structure Combination.Matches (host : Host) (c : Combination) (p : Packet) : Prop where
  port : ∀ port ∈ c.port, p.destinationPort = some port
  source : ∀ text ∈ c.source, ComesFrom host p text
  destination : ∀ text ∈ c.destination, GoesTo host p text
  station : ∀ text ∈ c.mac, SentBy p text
  piece : ∀ piece ∈ c.piece, piece.Covers p.day p.second

theorem run_actionExpr (e : Endian) (p : Packet) (action : Compile.Action) (r : Bytes) :
    run e p r [actionExpr action] = some (verdictOf action) := by
  cases action <;> rfl

theorem exists_choices {α : Type*} {l : List α} {P : α → Prop} :
    (∃ o ∈ choices l, ∀ a ∈ o, P a) ↔ Chosen (listed l) P := by
  cases l with
  | nil => simp [choices, listed, Chosen]
  | cons a l => simp [choices, listed, Chosen]

/-! ## Stations -/

def octetValue (o : Char × Char) : UInt8 := UInt8.ofNat (hexValue o.1 * 16 + hexValue o.2)

theorem octetsText_append (xs ys : List (Char × Char)) :
    octetsText (xs ++ ys) = octetsText xs ++ octetsText ys :=
  List.flatMap_append

theorem dropLast_octetsText (xs : List (Char × Char)) (o : Char × Char) :
    (octetsText (xs ++ [o])).dropLast = octetsText xs ++ [o.1, o.2] := by
  rw [octetsText_append, List.dropLast_append_of_ne_nil (by simp [octetsText])]
  rfl

theorem scanOctets_cons {a b : Char} (ha : hexDigit a = true) (hb : hexDigit b = true) (n : ℕ)
    (rest : List Char) :
    scanOctets (n + 1) (a :: b :: ':' :: rest) = octetValue (a, b) :: scanOctets n rest := by
  simp [scanOctets, ha, hb, octetValue]

theorem scanOctets_octetsText (n : ℕ) (rest : List Char) :
    ∀ {octets : List (Char × Char)}, (∀ o ∈ octets, hexDigit o.1 = true ∧ hexDigit o.2 = true) →
      scanOctets (n + octets.length) (octetsText octets ++ rest) =
        octets.map octetValue ++ scanOctets n rest
  | [], _ => by simp [octetsText]
  | o :: os, h => by
    have ho := h o List.mem_cons_self
    have ih := scanOctets_octetsText n rest fun o' ho' => h o' (List.mem_cons_of_mem _ ho')
    have htext : octetsText (o :: os) ++ rest = o.1 :: o.2 :: ':' :: (octetsText os ++ rest) := by
      simp [octetsText]
    rw [htext, List.length_cons, ← Nat.add_assoc, scanOctets_cons ho.1 ho.2, ih]
    rfl

theorem filter_hexDigit_flatMap {separator : Char} (hs : hexDigit separator = false) :
    ∀ {octets : List (Char × Char)}, (∀ o ∈ octets, hexDigit o.1 = true ∧ hexDigit o.2 = true) →
      (octets.flatMap fun o => [o.1, o.2, separator]).filter hexDigit =
        octets.flatMap fun o => [o.1, o.2]
  | [], _ => rfl
  | o :: os, h => by
    have ho := h o List.mem_cons_self
    have ih := filter_hexDigit_flatMap hs fun o' ho' => h o' (List.mem_cons_of_mem _ ho')
    rw [List.flatMap_cons, List.filter_append, ih, List.flatMap_cons]
    simp [ho, hs]

theorem filter_hexDigit_octetsText {octets : List (Char × Char)}
    (h : ∀ o ∈ octets, hexDigit o.1 = true ∧ hexDigit o.2 = true) :
    (octetsText octets).filter hexDigit = octets.flatMap fun o => [o.1, o.2] :=
  filter_hexDigit_flatMap rfl h

theorem octetsOf_flatMap :
    ∀ octets : List (Char × Char),
      octetsOf (octets.flatMap fun o => [o.1, o.2]) = octets.map octetValue
  | [] => rfl
  | o :: os => by
    rw [List.flatMap_cons, List.cons_append, List.cons_append, List.nil_append, octetsOf,
      octetsOf_flatMap os]
    rfl

theorem NormalStation.scan {text : String} (h : NormalStation text) :
    scanOctets 6 text.toList = stationOctets text ∧
      (stationOctets text).length = if stationIsPrefix text then 3 else 6 := by
  obtain ⟨octets, hhex, ⟨hlen, htext⟩ | ⟨hlen, htext⟩⟩ := h
  · obtain ⟨os, o, rfl⟩ : ∃ os o, octets = os ++ [o] :=
      (List.eq_nil_or_concat' octets).resolve_left (by rintro rfl; simp at hlen)
    have hos : ∀ o' ∈ os, hexDigit o'.1 = true ∧ hexDigit o'.2 = true := fun o' ho' =>
      hhex o' (List.mem_append_left _ ho')
    have ho := hhex o (by simp)
    have hlen' : os.length = 5 := by simpa using hlen
    rw [dropLast_octetsText] at htext
    have hscan : scanOctets 6 text.toList = (os ++ [o]).map octetValue := by
      have := scanOctets_octetsText 1 [o.1, o.2] hos
      rw [hlen'] at this
      rw [htext, this]
      simp [scanOctets, ho, octetValue]
    have hoctets : stationOctets text = (os ++ [o]).map octetValue := by
      have hlast : [o.1, o.2].filter hexDigit = [o.1, o.2] := by simp [ho]
      rw [stationOctets, htext, List.filter_append, filter_hexDigit_octetsText hos, hlast,
        ← octetsOf_flatMap, List.flatMap_append]
      rfl
    have hstar : stationIsPrefix text = false := by
      have : o.2 ≠ '*' := by
        rintro heq
        rw [heq] at ho
        exact absurd ho.2 (by decide)
      simp [stationIsPrefix, htext, this]
    refine ⟨hscan.trans hoctets.symm, ?_⟩
    simp [hoctets, hstar, hlen']
  · have hscan : scanOctets 6 text.toList = octets.map octetValue := by
      have := scanOctets_octetsText 3 ['*'] hhex
      rw [hlen] at this
      rw [htext, this]
      have hstar : scanOctets 3 ['*'] = [] := rfl
      rw [hstar, List.append_nil]
    have hoctets : stationOctets text = octets.map octetValue := by
      have hlast : ['*'].filter hexDigit = [] := rfl
      rw [stationOctets, htext, List.filter_append, filter_hexDigit_octetsText hhex, hlast,
        List.append_nil, octetsOf_flatMap]
    have hstar : stationIsPrefix text = true := by simp [stationIsPrefix, htext]
    refine ⟨hscan.trans hoctets.symm, ?_⟩
    simp [hoctets, hstar, hlen]

/-! ## Rules of one value -/

section Bits

theorem stateBits_eq (words : List String) :
    ∀ bits : ℕ, words.foldl (fun bits word => bits ||| stateBit word) bits =
      bits ||| stateBits words := by
  unfold stateBits
  induction words with
  | nil => intro bits; simp
  | cons word words ih =>
    intro bits
    rw [List.foldl_cons, List.foldl_cons, ih, ih (0 ||| stateBit word), Nat.zero_or, Nat.or_assoc]

theorem stateBits_cons (word : String) (words : List String) :
    stateBits (word :: words) = stateBit word ||| stateBits words := by
  rw [stateBits, List.foldl_cons, stateBits_eq, Nat.zero_or]

theorem bit_and_stateBits (s : CtState) :
    ∀ words : List String, s.bit &&& stateBits words ≠ 0 ↔ ∃ word ∈ words, stateOf word = some s
  | [] => by simp [stateBits]
  | word :: words => by
    have hword : s.bit &&& stateBit word ≠ 0 ↔ stateOf word = some s := by
      unfold stateBit
      cases hs : stateOf word with
      | none => simp
      | some t => cases s <;> cases t <;> decide
    rw [stateBits_cons, Nat.and_or_distrib_left, ne_eq, Nat.or_eq_zero_iff, not_and_or,
      ← ne_eq, ← ne_eq, hword, bit_and_stateBits s words]
    simp

theorem stateBits_lt : ∀ words : List String, stateBits words < 2 ^ 32
  | [] => by decide
  | word :: words => by
    rw [stateBits_cons]
    refine Nat.or_lt_two_pow ?_ (stateBits_lt words)
    unfold stateBit
    cases stateOf word with
    | none => decide
    | some s => cases s <;> decide

end Bits

section Tests

variable {e : Endian} {p : Packet} {g : List Expr} {P : Prop}

theorem tests_if {c : Prop} [Decidable c] (h : c → Tests e p g P) :
    Tests e p (if c then g else []) (c → P) := by
  split_ifs with hc
  · exact (h hc).congr (by simp [hc])
  · exact Tests.nil.congr (by simp [hc])

theorem tests_optional {α : Type*} {o : Option α} {Q : α → Prop} (hnone : o = none → g = [])
    (hsome : ∀ a, o = some a → Tests e p g (Q a)) : Tests e p g (∀ a ∈ o, Q a) := by
  cases o with
  | none =>
    rw [hnone rfl]
    exact Tests.nil.congr (by simp)
  | some a => exact (hsome a rfl).congr (by simp)

variable {host : Host}

theorem tests_addressMatch (a : Address) (source : Bool) :
    Tests e p (addressMatch a source) (SamePrefix a.count (slice p.network
      (if source then a.family.sourceOffset else a.family.destinationOffset) a.family.width)
      a.bytes) :=
  tests_address a.width a.fits

theorem tests_states {words : List String} :
    Tests host.endian p (if words ≠ [] then ctMatch host .state (stateBits words) else [])
      (Chosen (listed words) fun word => stateOf word = some p.state) := by
  have htest : words ≠ [] → Tests host.endian p (ctMatch host .state (stateBits words))
      (∃ word ∈ words, stateOf word = some p.state) := fun _ =>
    (tests_ct rfl (stateBits_lt words)).congr (bit_and_stateBits p.state words)
  refine (tests_if htest).congr ?_
  cases words <;> simp [Chosen, listed]

theorem tests_translated {translated : Bool} :
    Tests host.endian p (if translated then ctMatch host .status dstNat else [])
      (translated → p.status.toNat &&& dstNat ≠ 0) :=
  tests_if fun _ => tests_ct rfl (by decide)

theorem tests_stationMatch {text : String} (h : NormalStation text) :
    Tests host.endian p (stationMatch host (scanOctets 6 text.toList) (stationIsPrefix text))
      (SentBy p text) := by
  obtain ⟨hscan, hlen⟩ := h.scan
  have hexprs : stationMatch host (stationOctets text) (stationIsPrefix text) =
      stationExprs host.endian (stationOctets text) := by
    cases hstar : stationIsPrefix text with
    | true =>
      have hlen' : (stationOctets text).length = 3 := by simpa [hstar] using hlen
      have htake : (stationOctets text).take 3 = stationOctets text :=
        List.take_of_length_le hlen'.le
      simp only [stationMatch, stationExprs, hlen', htake, if_true, Nat.reduceLT]
      rfl
    | false =>
      have hlen' : (stationOctets text).length = 6 := by simpa [hstar] using hlen
      have htake : (stationOctets text).take 6 = stationOctets text :=
        List.take_of_length_le hlen'.le
      simp [stationMatch, stationExprs, hlen', htake]
  rw [hscan, hexprs]
  exact tests_station (by rw [hlen]; split_ifs <;> omega)

theorem tests_scheduleMatch {piece : Piece} (h : piece.Valid) :
    Tests e p (scheduleMatch piece) (piece.Covers p.day p.second) := by
  have hfirst := h.first
  have hle := h.le
  have hlast := h.last
  have hhour := tests_hour (e := e) (p := p) (by omega : piece.first.toNat < 86400)
    (by omega : piece.last.toNat < 86400)
  refine (hhour.append (?day : Tests e p _ (∀ d ∈ piece.day, d = (p.day : ℤ)))).congr ?_
  case day =>
    refine tests_optional (fun hd => by rw [hd]) fun d hd => ?_
    rw [hd]
    have hrange := h.day d hd
    exact (tests_day (by omega : d.toNat < 7)).congr (by omega)
  unfold Piece.Covers
  constructor
  · rintro ⟨hsecond, hd⟩
    exact ⟨hd, by omega, by omega⟩
  · rintro ⟨hd, hsecond⟩
    exact ⟨by omega, hd⟩

end Tests

/-! ## One combination -/

section Combinations

variable {host : Host} {hook : ChainName} {r : Rule}

theorem tests_interface {e : Endian} {p : Packet} {name : String} (h : 0 ∉ cBytes name) :
    Tests e p [.load (if hook = .output then .oifname else .iifname), .cmp .eq (cBytes name ++ [0])]
      ((if hook = .output then p.oifname else p.iifname).bytes = cBytes name) := by
  split_ifs
  · exact tests_oifname h
  · exact tests_iifname h

theorem addresses_iff {p : Packet} {source destination : Option String} {a b : Option Address}
    (ha : readFirst (parseAddress host) source.toList = .ok a)
    (hb : readFirst (parseAddress host) destination.toList = .ok b)
    (hsame : ∀ x ∈ a, ∀ y ∈ b, x.family = y.family) :
    ((∀ f ∈ (b.or a).map Address.family, p.family = f) ∧
      (∀ x ∈ a, SamePrefix x.count (slice p.network x.family.sourceOffset x.family.width) x.bytes) ∧
      ∀ y ∈ b, SamePrefix y.count (slice p.network y.family.destinationOffset y.family.width)
        y.bytes) ↔
      (∀ text ∈ source, ComesFrom host p text) ∧ ∀ text ∈ destination, GoesTo host p text := by
  have hread : ∀ {o : Option String} {x : Option Address},
      readFirst (parseAddress host) o.toList = .ok x →
      (o = none ∧ x = none) ∨ ∃ text y, o = some text ∧ x = some y ∧
        parseAddress host text = .ok y := by
    intro o x hox
    cases o with
    | none =>
      cases hox
      exact .inl ⟨rfl, rfl⟩
    | some text =>
      obtain ⟨y, hy, rfl⟩ := map_eq_ok.1 hox
      exact .inr ⟨text, y, rfl, rfl, hy⟩
  have hfrom : ∀ {text : String} {x : Address}, parseAddress host text = .ok x →
      (ComesFrom host p text ↔ p.family = x.family ∧
        SamePrefix x.count (slice p.network x.family.sourceOffset x.family.width) x.bytes) := by
    intro text x hx
    simp only [ComesFrom, hx, Except.ok.injEq, exists_eq_left']
    refine ⟨fun ⟨hf, hs⟩ => ⟨hf.symm, ?_⟩, fun ⟨hf, hs⟩ => ⟨hf.symm, ?_⟩⟩
    · rwa [Packet.source, ← hf] at hs
    · rwa [Packet.source, hf]
  have hto : ∀ {text : String} {x : Address}, parseAddress host text = .ok x →
      (GoesTo host p text ↔ p.family = x.family ∧
        SamePrefix x.count
          (slice p.network x.family.destinationOffset x.family.width) x.bytes) := by
    intro text x hx
    simp only [GoesTo, hx, Except.ok.injEq, exists_eq_left']
    refine ⟨fun ⟨hf, hs⟩ => ⟨hf.symm, ?_⟩, fun ⟨hf, hs⟩ => ⟨hf.symm, ?_⟩⟩
    · rwa [Packet.destination, ← hf] at hs
    · rwa [Packet.destination, hf]
  rcases hread ha with ⟨rfl, rfl⟩ | ⟨s, x, rfl, rfl, hx⟩ <;>
    rcases hread hb with ⟨rfl, rfl⟩ | ⟨t, y, rfl, rfl, hy⟩
  · simp
  · simp [hto hy]
  · simp [hfrom hx]
  · have hxy : x.family = y.family := hsame x rfl y rfl
    simp only [Option.some_or, Option.map_some, Option.mem_def, Option.some.injEq, forall_eq',
      hfrom hx, hto hy, hxy]
    exact ⟨fun h => ⟨⟨h.1, h.2.1⟩, h.1, h.2.2⟩, fun h => ⟨h.1.1, h.1.2, h.2.2⟩⟩

theorem readStation_eq {text : String} {st : Bytes × Bool} (h : readStation hook r text = .ok st) :
    st = (scanOctets 6 text.toList, stationIsPrefix text) := by
  by_cases hshort : (scanOctets 6 text.toList).length < if stationIsPrefix text then 3 else 6
  · rw [readStation, if_pos hshort] at h
    cases h
  · rw [readStation, if_neg hshort] at h
    exact (Except.ok.inj h).symm

theorem families_of_not_mixed {c : Combination} {a b : Option Address}
    (ha : readFirst (parseAddress host) c.source.toList = .ok a)
    (hb : readFirst (parseAddress host) c.destination.toList = .ok b)
    (h : mixedFamilies host c = .ok false) : ∀ x ∈ a, ∀ y ∈ b, x.family = y.family := by
  rintro x rfl y rfl
  cases hs : c.source with
  | none => rw [hs] at ha; cases ha
  | some s =>
    cases hd : c.destination with
    | none => rw [hd] at hb; cases hb
    | some d =>
      rw [hs] at ha
      rw [hd] at hb
      obtain ⟨x', hx, hx'⟩ := map_eq_ok.1 ha
      obtain ⟨y', hy, hy'⟩ := map_eq_ok.1 hb
      obtain rfl := Option.some_inj.1 hx'
      obtain rfl := Option.some_inj.1 hy'
      simpa [mixedFamilies, hs, hd, hx, hy, bind, Except.bind, pure, Except.pure] using h

theorem tests_firewallRule {c : Combination} {exprs : List Expr}
    (hok : firewallRule host hook (c.rule r) c.piece = .ok exprs)
    (hsame : mixedFamilies host c = .ok false) (hr : SoundRule hook (c.rule r))
    (hpiece : ∀ q ∈ c.piece, q.Valid) (p : Packet) :
    ∃ g, exprs = g ++ [actionExpr r.action] ∧
      Tests host.endian p g (FixedMatch hook r p ∧ c.Matches host p) := by
  obtain ⟨source, hsource, hok⟩ := bind_eq_ok.1 hok
  obtain ⟨destination, hdestination, hok⟩ := bind_eq_ok.1 hok
  obtain ⟨station, hstation, hok⟩ := bind_eq_ok.1 hok
  obtain rfl := Except.ok.inj hok
  refine ⟨_, rfl, ?_⟩
  have hfamily : ∀ x ∈ source, ∀ y ∈ destination, x.family = y.family :=
    families_of_not_mixed hsource hdestination hsame
  refine Tests.congr (P := ((((((((((∀ f ∈ (destination.or source).map Address.family,
    p.family = f) ∧ (r.protocol ≠ .any → p.protocol = protocolNumber r.protocol)) ∧
    (∀ port ∈ c.port, p.destinationPort = some port)) ∧
    (∀ x ∈ source, SamePrefix x.count (slice p.network x.family.sourceOffset x.family.width)
      x.bytes)) ∧
    (∀ y ∈ destination, SamePrefix y.count (slice p.network y.family.destinationOffset
      y.family.width) y.bytes)) ∧
    (∀ name ∈ r.interface, (if hook = .output then p.oifname else p.iifname).bytes =
      cBytes name)) ∧
    (∀ name ∈ r.outInterface, p.oifname.bytes = cBytes name)) ∧
    (Chosen (listed r.states) fun word => stateOf word = some p.state)) ∧
    (r.translated → p.status.toNat &&& dstNat ≠ 0)) ∧
    (∀ text ∈ c.mac, SentBy p text)) ∧ ∀ q ∈ c.piece, q.Covers p.day p.second) ?_ ?_
  · refine .append (.append (.append (.append (.append (.append (.append (.append (.append
      (.append ?_ ?_) ?_) ?_) ?_) ?_) ?_) ?_) ?_) ?_) ?_
    · refine tests_optional (fun h => by rw [h]) fun f h => ?_
      rw [h]
      exact tests_family f
    · exact tests_if fun _ => tests_protocol _
    · refine tests_optional (fun h => ?_) fun port h => ?_
      · simp [Combination.rule, h]
      · have hlt := hr.ports port (by simp [Combination.rule, h])
        simpa [Combination.rule, h] using tests_port hlt
    · refine tests_optional (fun h => by rw [h]) fun a h => ?_
      rw [h]
      exact tests_addressMatch a true
    · refine tests_optional (fun h => by rw [h]) fun a h => ?_
      rw [h]
      exact tests_addressMatch a false
    · refine tests_optional (fun h => ?_) fun name h => ?_
      · simp [Combination.rule, h]
      · simpa [Combination.rule, h] using tests_interface (hr.interface name h).1
    · refine tests_optional (fun h => ?_) fun name h => ?_
      · simp [Combination.rule, h]
      · simpa [Combination.rule, h] using tests_oifname (hr.outInterface name h).2.1
    · exact tests_states
    · exact tests_translated
    · refine tests_optional (fun h => ?_) fun text h => ?_
      · have hmac : (c.rule r).mac = [] := by simp [Combination.rule, h]
        rw [hmac] at hstation
        cases hstation
        rfl
      · have hmac : (c.rule r).mac = [text] := by simp [Combination.rule, h]
        rw [hmac] at hstation
        obtain ⟨st, hst, rfl⟩ := map_eq_ok.1 hstation
        have hnormal := hr.stations text (by simp [hmac])
        obtain rfl := readStation_eq hst
        exact tests_stationMatch hnormal
    · refine tests_optional (fun h => by rw [h]) fun q h => ?_
      rw [h]
      exact tests_scheduleMatch (hpiece q h)
  · have haddr := addresses_iff (p := p) hsource hdestination hfamily
    constructor
    · rintro ⟨⟨⟨⟨⟨⟨⟨⟨⟨⟨hf, hp⟩, hport⟩, hs⟩, hd⟩, hi⟩, ho⟩, hst⟩, ht⟩, hmac⟩, hq⟩
      obtain ⟨hs', hd'⟩ := haddr.1 ⟨hf, hs, hd⟩
      exact ⟨⟨hp, hi, ho, hst, ht⟩, ⟨hport, hs', hd', hmac, hq⟩⟩
    · rintro ⟨hfixed, hc⟩
      obtain ⟨hf, hs, hd⟩ := haddr.2 ⟨hc.source, hc.destination⟩
      exact ⟨⟨⟨⟨⟨⟨⟨⟨⟨⟨hf, hfixed.protocol⟩, hc.port⟩, hs⟩, hd⟩, hfixed.interface⟩,
        hfixed.outInterface⟩, hfixed.state⟩, hfixed.translated⟩, hc.station⟩, hc.piece⟩

theorem not_matches_of_mixed {c : Combination} {p : Packet} (h : mixedFamilies host c = .ok true) :
    ¬c.Matches host p := by
  intro hc
  cases hs : c.source with
  | none => simp [mixedFamilies, hs] at h
  | some s =>
    cases hd : c.destination with
    | none => simp [mixedFamilies, hs, hd] at h
    | some d =>
      obtain ⟨a, ha, hfa, -⟩ := hc.source s hs
      obtain ⟨b, hb, hfb, -⟩ := hc.destination d hd
      simp [mixedFamilies, hs, hd, ha, hb, bind, Except.bind, pure, Except.pure, hfa, hfb] at h

theorem combinationRule_spec {c : Combination} {comment : String} {o : Option KernelRule}
    (hok : combinationRule host hook r comment c = .ok o) (hr : SoundRule hook (c.rule r))
    (hpiece : ∀ q ∈ c.piece, q.Valid) (p : Packet)
    [Decidable (FixedMatch hook r p ∧ c.Matches host p)] :
    (o = none → ¬c.Matches host p) ∧
      ∀ k ∈ o, run host.endian p [] k.exprs =
        if FixedMatch hook r p ∧ c.Matches host p then some (verdictOf r.action) else none := by
  obtain ⟨mixed, hmixed, hok⟩ := bind_eq_ok.1 hok
  cases mixed with
  | true =>
    cases hok
    exact ⟨fun _ => not_matches_of_mixed hmixed, by simp⟩
  | false =>
    obtain ⟨exprs, hexprs, hok⟩ := bind_eq_ok.1 hok
    obtain rfl := Except.ok.inj hok
    refine ⟨by simp, fun k hk => ?_⟩
    obtain rfl := Option.some_inj.1 hk
    obtain ⟨g, rfl, htests⟩ := tests_firewallRule hexprs hmixed hr hpiece p
    exact htests.run_eq (run_actionExpr host.endian p r.action) []

theorem exists_combination {pieces : List Piece} {p : Packet} :
    (∃ c ∈ combinations r pieces, c.Matches host p) ↔
      Chosen (listed r.ports) (fun port => p.destinationPort = some port) ∧
        Chosen (listed r.sources) (ComesFrom host p) ∧
        Chosen (listed r.destinations) (GoesTo host p) ∧ Chosen (listed r.mac) (SentBy p) ∧
        Chosen (listed pieces) fun q => q.Covers p.day p.second := by
  simp only [← exists_choices, combinations, List.mem_flatMap, List.mem_map]
  constructor
  · rintro ⟨c, ⟨port, hport, source, hsource, destination, hdestination, mac, hmac, piece, hpiece,
      rfl⟩, hc⟩
    exact ⟨⟨port, hport, hc.port⟩, ⟨source, hsource, hc.source⟩,
      ⟨destination, hdestination, hc.destination⟩, ⟨mac, hmac, hc.station⟩, piece, hpiece, hc.piece⟩
  · rintro ⟨⟨port, hport, h1⟩, ⟨source, hsource, h2⟩, ⟨destination, hdestination, h3⟩,
      ⟨mac, hmac, h4⟩, piece, hpiece, h5⟩
    exact ⟨_, ⟨port, hport, source, hsource, destination, hdestination, mac, hmac, piece, hpiece,
      rfl⟩, h1, h2, h3, h4, h5⟩

theorem mem_of_mem_choices {α : Type*} {l : List α} {o : Option α} (h : o ∈ choices l) :
    ∀ a ∈ o, a ∈ l := by
  cases l with
  | nil =>
    have : o = none := by simpa [choices] using h
    simp [this]
  | cons x l =>
    rintro a rfl
    simpa [choices] using h

theorem sound_combination {pieces : List Piece} {c : Combination} (hc : c ∈ combinations r pieces)
    (hr : SoundRule hook r) : SoundRule hook (c.rule r) ∧ ∀ q ∈ c.piece, q ∈ pieces := by
  simp only [combinations, List.mem_flatMap, List.mem_map] at hc
  obtain ⟨port, hport, source, -, destination, -, mac, hmac, piece, hpiece, rfl⟩ := hc
  refine ⟨⟨fun p hp => hr.ports p (mem_of_mem_choices hport p (Option.mem_toList.1 hp)),
    hr.interface, hr.outInterface, hr.states,
    fun t ht => hr.stations t (mem_of_mem_choices hmac t (Option.mem_toList.1 ht)), hr.hours,
    hr.days⟩, mem_of_mem_choices hpiece⟩

end Combinations

/-! ## The rules of the kernel -/

section Messages

variable {host : Host} {hook : ChainName} {r : Rule} {pieces : List Piece}

theorem SoundRule.window (hr : SoundRule hook r) :
    ∃ w : Schedule.Window, w.Proper ∧ windowOf (r.hours.map String.toList) = .ok w ∧
      (asksOf r).hours.getD ⟨0, 86400⟩ = w ∧ ((asksOf r).hours.isSome ↔ r.hours ≠ none) := by
  cases hh : r.hours with
  | none => exact ⟨_, proper_whole, rfl, by simp [asksOf, hh], by simp [asksOf, hh]⟩
  | some text =>
    obtain ⟨w, hw, htext⟩ := hr.hours text hh
    have hparse : hoursParse text.toList = .ok w := htext ▸ hoursParse_text hw
    refine ⟨w, hw.toProper, hparse, ?_, ?_⟩ <;> simp [asksOf, hh, hparse, Except.toOption]

theorem SoundRule.dayIn_iff (hr : SoundRule hook r) (day : ℤ) :
    DayIn r.days day ↔ DayAsked (listed r.days) day := by
  cases hd : r.days with
  | nil => simp [DayIn, DayAsked, Chosen, listed]
  | cons word words =>
    have hword : dayOf word ≠ none := by
      have := hr.days word (by simp [hd])
      exact Option.isSome_iff_ne_none.1 this
    have hnot : ¬∀ w ∈ word :: words, dayOf w = none := fun h => hword (h word List.mem_cons_self)
    simp only [DayIn, hnot, false_or, DayAsked, Chosen, listed, List.isEmpty_cons,
      Option.mem_def, Option.some.injEq, forall_eq', Bool.false_eq_true, if_false]

theorem rulePieces_eq_ok (hok : rulePieces host r = .ok pieces) :
    r.hours = none ∧ r.days = [] ∧ pieces = [] ∨
      (r.hours ≠ none ∨ r.days ≠ []) ∧ pieces ≠ [] ∧
        pieces = expand (r.hours.map String.toList) r.days host.offset := by
  unfold rulePieces at hok
  split_ifs at hok with hnone
  · exact .inl ⟨hnone.1, hnone.2, (Except.ok.inj hok).symm⟩
  · split at hok
    case h_1 => cases hok
    case h_2 _ hne =>
      cases hok
      exact .inr ⟨not_and_or.1 hnone, hne, rfl⟩

theorem valid_rulePieces (hok : rulePieces host r = .ok pieces) (hr : SoundRule hook r) :
    ∀ q ∈ pieces, q.Valid := by
  obtain ⟨w, hw, hwindow, -⟩ := hr.window
  rcases rulePieces_eq_ok hok with ⟨-, -, rfl⟩ | ⟨-, -, rfl⟩
  · simp
  · exact valid_expand hwindow hw r.days host.offset

theorem covered_rulePieces (hok : rulePieces host r = .ok pieces) (hr : SoundRule hook r)
    (p : Packet) :
    (Chosen (listed pieces) fun q => q.Covers p.day p.second) ↔
      ((asksOf r).hours.isSome ∨ (asksOf r).days.isSome →
        ((asksOf r).hours.getD ⟨0, 86400⟩).Holds (DayAsked (asksOf r).days)
          (localDay host.offset p.day p.second) (localSecond host.offset p.second)) := by
  obtain ⟨w, hw, hwindow, hget, hsome⟩ := hr.window
  have hdays : (asksOf r).days.isSome ↔ r.days ≠ [] := by
    cases hd : r.days <;> simp [asksOf, listed, hd]
  rw [hsome, hdays, hget]
  rcases rulePieces_eq_ok hok with ⟨hhours, hdays, rfl⟩ | ⟨hasked, hne, heq⟩
  · simp [Chosen, listed, hhours, hdays]
  · have hday := p.day.isLt
    have hsecond := p.second.isLt
    have hcovered := covered_expand hwindow hw r.days host.offset
      (by omega : (0 : ℤ) ≤ p.day ∧ (p.day : ℤ) < 7)
      (by omega : (0 : ℤ) ≤ p.second ∧ (p.second : ℤ) < 86400)
    rw [← heq] at hcovered
    have hlisted : listed pieces = some pieces := by simp [listed, hne]
    rw [hlisted]
    simp only [Chosen, Option.mem_def, Option.some.injEq, forall_eq', hasked, forall_const]
    refine hcovered.trans (Schedule.Window.holds_congr ?_ fun d _ _ => hr.dayIn_iff d)
    unfold localDay
    omega

theorem matches_asksOf_iff (hok : rulePieces host r = .ok pieces) (hr : SoundRule hook r)
    (p : Packet) :
    (asksOf r).Matches host p hook ↔
      FixedMatch hook r p ∧ ∃ c ∈ combinations r pieces, c.Matches host p := by
  rw [exists_combination, covered_rulePieces hok hr p]
  constructor
  · intro h
    exact ⟨⟨h.protocol, h.interface, h.outInterface, h.state, h.translated⟩, h.port, h.source,
      h.destination, h.station, h.schedule⟩
  · rintro ⟨hf, hport, hsource, hdestination, hstation, hschedule⟩
    exact ⟨hf.protocol, hport, hsource, hdestination, hf.interface, hf.outInterface, hf.state,
      hf.translated, hstation, hschedule⟩

theorem exists_of_firewallRuleMessages {kernel : List KernelRule}
    (hok : firewallRuleMessages host hook r = .ok kernel) :
    ∃ pieces comment rules, rulePieces host r = .ok pieces ∧
      ruleComment host hook r pieces = .ok comment ∧
      List.Forall₂ (fun c o => combinationRule host hook r comment c = .ok o)
        (combinations r pieces) rules ∧ kernel = rules.filterMap id ∧ kernel ≠ [] := by
  unfold firewallRuleMessages at hok
  split at hok
  case h_1 => cases hok
  case h_2 pieces hpieces =>
    dsimp only at hok
    split_ifs at hok with hmany
    obtain ⟨comment, hcomment, hok⟩ := bind_eq_ok.1 hok
    obtain ⟨rules, hrules, hok⟩ := bind_eq_ok.1 hok
    refine ⟨pieces, comment, rules, hpieces, hcomment, mapM_eq_ok.1 hrules, ?_⟩
    split at hok
    case h_1 => cases hok
    case h_2 _ hne =>
      cases hok
      exact ⟨rfl, hne⟩

theorem forall₂_combinations {comment : String} {cs : List Combination}
    {rules : List (Option KernelRule)}
    (h : List.Forall₂ (fun c o => combinationRule host hook r comment c = .ok o) cs rules) :
    (∀ c ∈ cs, ∃ o ∈ rules, combinationRule host hook r comment c = .ok o) ∧
      ∀ o ∈ rules, ∃ c ∈ cs, combinationRule host hook r comment c = .ok o := by
  induction h with
  | nil => simp
  | cons hc _ ih =>
    constructor
    · rintro c (_ | ⟨_, hmem⟩)
      · exact ⟨_, List.mem_cons_self, hc⟩
      · obtain ⟨o, ho, h⟩ := ih.1 c hmem
        exact ⟨o, List.mem_cons_of_mem _ ho, h⟩
    · rintro o (_ | ⟨_, hmem⟩)
      · exact ⟨_, List.mem_cons_self, hc⟩
      · obtain ⟨c, hcs, h⟩ := ih.2 o hmem
        exact ⟨c, List.mem_cons_of_mem _ hcs, h⟩

/-- A packet meets a rule exactly where one of the rules it was expanded into runs to a verdict,
and that verdict is the rule's. -/
theorem ruleMessages_match {kernel : List KernelRule}
    (hok : firewallRuleMessages host hook r = .ok kernel) (hr : SoundRule hook r) (p : Packet) :
    ((asksOf r).Matches host p hook ↔ ∃ k ∈ kernel, (run host.endian p [] k.exprs).isSome) ∧
      ∀ k ∈ kernel, ∀ v ∈ run host.endian p [] k.exprs, v = verdictOf r.action := by
  classical
  obtain ⟨pieces, comment, rules, hpieces, -, hrules, rfl, -⟩ := exists_of_firewallRuleMessages hok
  obtain ⟨hgives, hcomes⟩ := forall₂_combinations hrules
  have hvalid := valid_rulePieces hpieces hr
  have hspec : ∀ c ∈ combinations r pieces, ∀ o, combinationRule host hook r comment c = .ok o →
      (o = none → ¬c.Matches host p) ∧ ∀ k ∈ o, run host.endian p [] k.exprs =
        if FixedMatch hook r p ∧ c.Matches host p then some (verdictOf r.action) else none := by
    intro c hc o ho
    obtain ⟨hsound, hpiece⟩ := sound_combination hc hr
    exact combinationRule_spec ho hsound (fun q hq => hvalid q (hpiece q hq)) p
  have hmem : ∀ {k}, k ∈ rules.filterMap id ↔ some k ∈ rules := by
    intro k
    simp
  rw [matches_asksOf_iff hpieces hr]
  refine ⟨⟨?_, ?_⟩, ?_⟩
  · rintro ⟨hfixed, c, hc, hmatch⟩
    obtain ⟨o, ho, hco⟩ := hgives c hc
    obtain ⟨hnone, hsome⟩ := hspec c hc o hco
    obtain ⟨k, rfl⟩ := Option.ne_none_iff_exists'.1 fun h => hnone h hmatch
    refine ⟨k, hmem.2 ho, ?_⟩
    rw [hsome k rfl, if_pos ⟨hfixed, hmatch⟩]
    rfl
  · rintro ⟨k, hk, hrun⟩
    obtain ⟨c, hc, hco⟩ := hcomes _ (hmem.1 hk)
    rw [(hspec c hc _ hco).2 k rfl] at hrun
    split_ifs at hrun with hmatch
    · exact ⟨hmatch.1, c, hc, hmatch.2⟩
    · cases hrun
  · intro k hk v hv
    obtain ⟨c, hc, hco⟩ := hcomes _ (hmem.1 hk)
    rw [(hspec c hc _ hco).2 k rfl] at hv
    split_ifs at hv
    · exact (Option.some_inj.1 hv).symm
    · cases hv

end Messages

/-! ## A packet for every rule of the kernel -/

section Packets

variable {host : Host} {hook : ChainName} {r : Rule}

theorem slice_getD {bytes : Bytes} (offset : ℕ) (header : ℕ → UInt8)
    (h : ∀ i < bytes.length, header (offset + i) = bytes.getD i 0) :
    slice header offset bytes.length = bytes := by
  refine List.ext_getElem (length_slice ..) fun i _ hi => ?_
  simp only [slice, List.getElem_map, List.getElem_range]
  rw [h i hi, List.getD_eq_getElem _ _ hi]

theorem exists_network (family : Family) {source destination : Bytes}
    (hs : source.length = family.width) (hd : destination.length = family.width) :
    ∃ network, slice network family.sourceOffset family.width = source ∧
      slice network family.destinationOffset family.width = destination := by
  have hoffset : family.destinationOffset = family.sourceOffset + family.width := by
    cases family <;> rfl
  refine ⟨fun i => if i < family.destinationOffset then source.getD (i - family.sourceOffset) 0
    else destination.getD (i - family.destinationOffset) 0, ?_, ?_⟩
  · rw [← hs]
    refine slice_getD _ _ fun i hi => ?_
    rw [if_pos (by omega), Nat.add_sub_cancel_left]
  · rw [← hd]
    refine slice_getD _ _ fun i hi => ?_
    rw [if_neg (by omega), Nat.add_sub_cancel_left]

theorem exists_device {o : Option String}
    (h : ∀ name ∈ o, 0 ∉ cBytes name ∧ (cBytes name).length < 16) :
    ∃ d : DeviceName, ∀ name ∈ o, d.bytes = cBytes name := by
  cases o with
  | none => exact ⟨⟨[], by decide, by simp⟩, by simp⟩
  | some name => exact ⟨⟨cBytes name, (h name rfl).2, (h name rfl).1⟩, by simp⟩

theorem exists_transport {o : Option ℕ} (h : ∀ port ∈ o, port < 65536) :
    ∃ header : ℕ → UInt8, ∀ port ∈ o, (header 2).toNat * 256 + (header 3).toNat = port := by
  cases o with
  | none => exact ⟨fun _ => 0, by simp⟩
  | some port =>
    have hlt := h port rfl
    refine ⟨fun i => if i = 2 then UInt8.ofNat (port / 256) else UInt8.ofNat (port % 256), ?_⟩
    rintro _ ⟨rfl⟩
    dsimp only
    rw [if_pos rfl, if_neg (by decide), UInt8.toNat_ofNat_of_lt' (by omega : port / 256 < 256),
      UInt8.toNat_ofNat_of_lt' (by omega : port % 256 < 256)]
    omega

theorem exists_link {o : Option String} (h : ∀ text ∈ o, NormalStation text) :
    ∃ header : ℕ → UInt8, ∀ text ∈ o,
      (slice header 6 6).take (stationOctets text).length = stationOctets text := by
  cases o with
  | none => exact ⟨fun _ => 0, by simp⟩
  | some text =>
    have hlen : (stationOctets text).length ≤ 6 := by
      rw [(h text rfl).scan.2]
      split_ifs <;> omega
    refine ⟨fun i => (stationOctets text).getD (i - 6) 0, ?_⟩
    rintro _ ⟨rfl⟩
    refine List.ext_getElem (by simpa using hlen) fun i _ hi => ?_
    simp only [List.getElem_take, slice, List.getElem_map, List.getElem_range,
      Nat.add_sub_cancel_left]
    rw [List.getD_eq_getElem _ _ hi]

theorem exists_state {words : List String} (h : ∀ word ∈ words, word ∈ stateWords) :
    ∃ s, Chosen (listed words) fun word => stateOf word = some s := by
  cases words with
  | nil => exact ⟨.new, by simp [Chosen, listed]⟩
  | cons word words =>
    have hword : ∀ word ∈ stateWords, ∃ s, stateOf word = some s := by
      simp only [stateWords, List.forall_mem_cons]
      exact ⟨⟨.new, rfl⟩, ⟨.established, rfl⟩, ⟨.related, rfl⟩, ⟨.invalid, rfl⟩, by simp⟩
    obtain ⟨s, hs⟩ := hword word (h word List.mem_cons_self)
    exact ⟨s, by simp [Chosen, listed, hs]⟩

theorem exists_time {o : Option Piece} (h : ∀ q ∈ o, q.Valid) :
    ∃ (day : Fin 7) (second : Fin 86400), ∀ q ∈ o, q.Covers (day : ℕ) (second : ℕ) := by
  cases o with
  | none => exact ⟨0, 0, by simp⟩
  | some q =>
    obtain ⟨hday, hfirst, hle, hlast⟩ := h q rfl
    have hsecond : q.first.toNat < 86400 := by omega
    obtain ⟨day, hd⟩ : ∃ day : Fin 7, ∀ d ∈ q.day, d = ((day : ℕ) : ℤ) := by
      cases hq : q.day with
      | none => exact ⟨0, by simp⟩
      | some d =>
        have := hday d hq
        exact ⟨⟨d.toNat, by omega⟩, by simp; omega⟩
    refine ⟨day, ⟨q.first.toNat, hsecond⟩, ?_⟩
    rintro _ ⟨rfl⟩
    exact ⟨hd, by dsimp only; omega, by dsimp only; omega⟩

theorem exists_addresses {source destination : Option Address}
    (h : ∀ x ∈ source, ∀ y ∈ destination, x.family = y.family) :
    ∃ (family : Family) (s d : Bytes), s.length = family.width ∧ d.length = family.width ∧
      (∀ x ∈ source, x.family = family ∧ x.bytes = s) ∧
      ∀ y ∈ destination, y.family = family ∧ y.bytes = d := by
  have hblank : ∀ f : Family, (List.replicate f.width (0 : UInt8)).length = f.width := by simp
  cases source with
  | none =>
    cases destination with
    | none => exact ⟨.ipv4, _, _, hblank _, hblank _, by simp, by simp⟩
    | some y => exact ⟨y.family, _, y.bytes, hblank _, y.width, by simp, by simp⟩
  | some x =>
    cases destination with
    | none => exact ⟨x.family, x.bytes, _, x.width, hblank _, by simp, by simp⟩
    | some y =>
      have hxy := h x rfl y rfl
      exact ⟨x.family, x.bytes, y.bytes, x.width, hxy ▸ y.width, by simp, by simp [hxy]⟩

theorem samePrefix_refl (count : ℕ) (bytes : Bytes) : SamePrefix count bytes bytes :=
  fun _ _ => rfl

theorem exists_packet {c : Combination} {exprs : List Expr}
    (hok : firewallRule host hook (c.rule r) c.piece = .ok exprs)
    (hsame : mixedFamilies host c = .ok false) (hr : SoundRule hook (c.rule r))
    (hpiece : ∀ q ∈ c.piece, q.Valid) : ∃ p, FixedMatch hook r p ∧ c.Matches host p := by
  obtain ⟨source, hsource, hok⟩ := bind_eq_ok.1 hok
  obtain ⟨destination, hdestination, -⟩ := bind_eq_ok.1 hok
  obtain ⟨family, s, d, hs, hd, hsrc, hdst⟩ :=
    exists_addresses (families_of_not_mixed hsource hdestination hsame)
  obtain ⟨network, hnets, hnetd⟩ := exists_network family hs hd
  obtain ⟨transport, htransport⟩ := exists_transport (o := c.port) fun port hp =>
    hr.ports port (Option.mem_toList.2 hp)
  obtain ⟨link, hlink⟩ := exists_link (o := c.mac) fun text ht =>
    hr.stations text (Option.mem_toList.2 ht)
  obtain ⟨inside, hinside⟩ := exists_device hr.interface
  obtain ⟨outside, houtside⟩ := exists_device fun name hn => (hr.outInterface name hn).2
  obtain ⟨state, hstate⟩ := exists_state hr.states
  obtain ⟨day, second, htime⟩ := exists_time hpiece
  refine ⟨⟨family, protocolNumber r.protocol, network, some transport, some link, 1, inside,
    if hook = .output then inside else outside, state, 32, day, second⟩, ?_, ?_⟩
  · refine ⟨fun _ => rfl, fun name hn => ?_, fun name hn => ?_, hstate, fun _ => by simp [dstNat]⟩
    · rw [← hinside name hn]
      split_ifs <;> rfl
    · have hhook := (hr.outInterface name hn).1
      rw [← houtside name hn, hhook]
      rfl
  · refine ⟨fun port hp => ?_, fun text ht => ?_, fun text ht => ?_, fun text ht => ?_, htime⟩
    · rw [Packet.destinationPort, Option.map_some, htransport port hp]
    · have hsource' : readFirst (parseAddress host) c.source.toList = .ok source := hsource
      rw [show c.source = some text from ht] at hsource'
      obtain ⟨x, hx, rfl⟩ := map_eq_ok.1 hsource'
      obtain ⟨hf, hb⟩ := hsrc x rfl
      refine ⟨x, hx, hf, ?_⟩
      rw [Packet.source, hnets, hb]
      exact samePrefix_refl _ _
    · have hdestination' : readFirst (parseAddress host) c.destination.toList = .ok destination :=
        hdestination
      rw [show c.destination = some text from ht] at hdestination'
      obtain ⟨x, hx, rfl⟩ := map_eq_ok.1 hdestination'
      obtain ⟨hf, hb⟩ := hdst x rfl
      refine ⟨x, hx, hf, ?_⟩
      rw [Packet.destination, hnetd, hb]
      exact samePrefix_refl _ _
    · exact ⟨slice link 6 6, rfl, hlink text ht⟩

theorem exists_match_of_ruleMessages {kernel : List KernelRule}
    (hok : firewallRuleMessages host hook r = .ok kernel) (hr : SoundRule hook r) :
    ∃ p, (asksOf r).Matches host p hook := by
  obtain ⟨pieces, comment, rules, hpieces, -, hrules, rfl, hne⟩ :=
    exists_of_firewallRuleMessages hok
  obtain ⟨k, hk⟩ := List.exists_mem_of_ne_nil _ hne
  obtain ⟨c, hc, hco⟩ := (forall₂_combinations hrules).2 (some k) (by simpa using hk)
  obtain ⟨hsound, hpiece⟩ := sound_combination hc hr
  obtain ⟨mixed, hmixed, hco⟩ := bind_eq_ok.1 hco
  cases mixed with
  | true => cases hco
  | false =>
    obtain ⟨exprs, hexprs, -⟩ := bind_eq_ok.1 hco
    have hvalid : ∀ q ∈ pieces, q.Valid := valid_rulePieces hpieces hr
    obtain ⟨p, hfixed, hmatch⟩ :=
      exists_packet hexprs hmixed hsound fun q hq => hvalid q (hpiece q hq)
    exact ⟨p, (matches_asksOf_iff hpieces hr p).2 ⟨hfixed, c, hc, hmatch⟩⟩

end Packets

end Netcfgd.Nft
