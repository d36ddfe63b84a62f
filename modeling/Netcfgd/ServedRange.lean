import Netcfgd.DhcpServer

/-!
# The range that is served

What `ncfg_dhcp_server_range` hands out is to be inside the network of the interface, and its
reservations too (`Inside`). The ends of the default range are additions in 32 bits : near the top
of the address space they pass zero, and so the range is inside exactly where it is stated, or the
hundredth address of the network is an address (`served_inside_iff`).
-/

/-! ## The text of an IPv4 address -/

namespace Inet

theorem digitChar_of_decimalOf {c : Char} {d : ℕ} (h : decimalOf c = some d) :
    d < 10 ∧ digitChar d = c := by
  unfold decimalOf at h
  split_ifs at h with hc
  obtain ⟨n, hn, rfl⟩ : ∃ n, n ≤ 57 ∧ c = Char.ofNat n := ⟨c.toNat, hc.2, (Char.ofNat_toNat c).symm⟩
  have hall : ∀ n ≤ 57, '0' ≤ Char.ofNat n → (Char.ofNat n).toNat - '0'.toNat < 10 ∧
      digitChar ((Char.ofNat n).toNat - '0'.toNat) = Char.ofNat n := by decide
  obtain rfl := Option.some.inj h
  exact hall n hn hc.1

theorem digits_snoc {v d : ℕ} (hv : v ≠ 0) (hd : d < 10) (hle : v * 10 + d ≤ 255) :
    digits 10 3 (v * 10 + d) = digits 10 3 v ++ [digitChar d] := by
  have hdiv : (v * 10 + d) / 10 = v := by omega
  have hmod : (v * 10 + d) % 10 = d := by omega
  have hplaces : digits 10 2 v = digits 10 3 v := by
    have : ∀ v < 26, digits 10 2 v = digits 10 3 v := by decide
    exact this v (by omega)
  rw [digits, if_neg (by omega), hdiv, hmod, hplaces]

theorem dotted_of_scan4 : ∀ {cs : List Char} {done list : List ℕ} {current : Option ℕ},
    (∀ v ∈ current, v ≤ 255) → scan4 cs done current = some list → ∃ o os, list = done ++ o :: os ∧
      (current.elim [] fun v => digits 10 3 v) ++ cs = dotted (o :: os)
  | [], _, _, none, _, h => by simp [scan4] at h
  | [], done, list, some v, _, h => by
    simp only [scan4] at h
    split_ifs at h
    obtain rfl := Option.some.inj h
    exact ⟨v, [], rfl, by simp [dotted]⟩
  | c :: cs, done, list, current, hcurrent, h => by
    unfold scan4 at h
    cases hc : decimalOf c with
    | some d =>
      obtain ⟨hd, hchar⟩ := digitChar_of_decimalOf hc
      cases current with
      | none =>
        simp only [hc] at h
        split_ifs at h
        obtain ⟨o, os, hlist, htext⟩ := dotted_of_scan4 (by simp; omega) h
        refine ⟨o, os, hlist, ?_⟩
        rw [← htext, Option.elim_none, Option.elim_some, digits, if_pos hd, hchar]
        rfl
      | some v =>
        simp only [hc] at h
        split_ifs at h with hzero hbig
        obtain ⟨o, os, hlist, htext⟩ := dotted_of_scan4 (by simpa using Nat.not_lt.1 hbig) h
        refine ⟨o, os, hlist, ?_⟩
        rw [← htext, Option.elim_some, Option.elim_some, digits_snoc hzero hd (by omega), hchar]
        simp
    | none =>
      cases current with
      | none => simp [hc] at h
      | some v =>
        simp only [hc] at h
        split_ifs at h with hdot hfull
        obtain ⟨o, os, hlist, htext⟩ := dotted_of_scan4 (by simp) h
        refine ⟨v, o :: os, by simpa using hlist, ?_⟩
        rw [dotted, ← htext, hdot]
        rfl

theorem ntop4_of_pton4 {text : List Char} {octets : Groups 4 256} (h : pton4 text = some octets) :
    ntop4 octets = text := by
  obtain ⟨list, hlist, hof⟩ := Option.bind_eq_some_iff.1 h
  obtain ⟨o, os, rfl, htext⟩ := dotted_of_scan4 (by simp) hlist
  unfold Groups.of at hof
  split_ifs at hof
  obtain rfl := Option.some.inj hof
  exact htext.symm

end Inet

namespace Netcfgd.DhcpServer

open Inet hiding dotted
open Netcfgd.Resolver (Text)

theorem toHost_lt (octets : Groups 4 256) : toHost octets < 2 ^ 32 := by
  obtain ⟨list, hlen, hlt⟩ := octets
  obtain ⟨a, b, c, d, rfl⟩ := List.length_eq_four.1 hlen
  simp only [List.mem_cons, List.not_mem_nil, or_false, forall_eq_or_imp, forall_eq] at hlt
  simp only [toHost, List.foldl_cons, List.foldl_nil]
  omega

theorem toHost_injective {o o' : Groups 4 256} (h : toHost o = toHost o') : o = o' := by
  obtain ⟨list, hlen, hlt⟩ := o
  obtain ⟨list', hlen', hlt'⟩ := o'
  obtain ⟨a, b, c, d, rfl⟩ := List.length_eq_four.1 hlen
  obtain ⟨a', b', c', d', rfl⟩ := List.length_eq_four.1 hlen'
  simp only [List.mem_cons, List.not_mem_nil, or_false, forall_eq_or_imp, forall_eq] at hlt hlt'
  simp only [toHost, List.foldl_cons, List.foldl_nil] at h
  simp only [Groups.mk.injEq, List.cons.injEq, and_true]
  omega

theorem bareIpv4_eq_some {text : Text} {a : ℕ} (h : bareIpv4 text = some a) :
    ∃ octets, text = ntop4 octets ∧ a = toHost octets := by
  unfold bareIpv4 addressOf Address.parse at h
  dsimp only at h
  rw [String.toList_ofList] at h
  split at h
  · next octets _ heq =>
    split_ifs at heq
    obtain ⟨ip, hip, hrest⟩ := Option.bind_eq_some_iff.1 heq
    cases hdrop : text.dropWhile (· ≠ '/') with
    | cons =>
      rw [hdrop] at hrest
      obtain ⟨n, -, hn⟩ := Option.bind_eq_some_iff.1 hrest
      split_ifs at hn
      cases hn
    | nil =>
      rw [hdrop] at hrest
      have hwhole : text.takeWhile (· ≠ '/') = text :=
        List.takeWhile_eq_self_iff.2 (List.dropWhile_eq_nil_iff.1 hdrop)
      simp only [Option.some.injEq, Address.mk.injEq] at hrest
      obtain ⟨rfl, -⟩ := hrest
      rw [hwhole] at hip
      unfold Ip.read at hip
      split_ifs at hip
      · simp at hip
      · obtain ⟨o, ho, hv⟩ := Option.map_eq_some_iff.1 hip
        cases hv
        exact ⟨octets, (ntop4_of_pton4 ho).symm, (Option.some.inj h).symm⟩
  · cases h

theorem bareIpv4_injective {text text' : Text} {a : ℕ} (h : bareIpv4 text = some a)
    (h' : bareIpv4 text' = some a) : text = text' := by
  obtain ⟨o, rfl, rfl⟩ := bareIpv4_eq_some h
  obtain ⟨o', rfl, heq⟩ := bareIpv4_eq_some h'
  rw [toHost_injective heq]

/-- An address that is printed is read back. -/
theorem bareIpv4_dotted {value : ℕ} (h : value < 2 ^ 32) :
    bareIpv4 (dotted value) = some value := by
  let octets : Groups 4 256 := ⟨[value / 2 ^ 24 % 256, value / 2 ^ 16 % 256, value / 2 ^ 8 % 256,
    value % 256], rfl, by simp only [List.mem_cons, List.not_mem_nil, or_false,
      forall_eq_or_imp, forall_eq]; omega⟩
  have hparse : addressOf (dotted value) = some ⟨.v4 octets, none, by simp⟩ := by
    have := Address.parse_render ⟨.v4 octets, none, by simp⟩
    rwa [Address.render, Option.map_none, Option.getD_none, List.append_nil] at this
  rw [bareIpv4, hparse]
  simp only [toHost, octets, List.foldl_cons, List.foldl_nil, Option.some.injEq]
  omega

/-! ## Hardware addresses -/

def macOctets : Text → List (Option ℕ × Option ℕ)
  | a :: b :: _ :: rest => (digitOf a, digitOf b) :: macOctets rest
  | [a, b] => [(digitOf a, digitOf b)]
  | _ => []

theorem toLower_of_digitOf {c : Char} {d : ℕ} (h : digitOf c = some d) :
    c.toLower = digitChar d := by
  have hle : c.toNat ≤ 102 := by
    unfold digitOf at h
    split_ifs at h with h1 h2 h3
    · exact Nat.le_trans h1.2 (by decide : '9'.toNat ≤ 102)
    · exact h2.2
    · exact Nat.le_trans h3.2 (by decide : 'F'.toNat ≤ 102)
  obtain ⟨n, hn, rfl⟩ : ∃ n, n ≤ 102 ∧ c = Char.ofNat n := ⟨c.toNat, hle, (Char.ofNat_toNat c).symm⟩
  have hall : ∀ n ≤ 102, (digitOf (Char.ofNat n)).all
      fun d => (Char.ofNat n).toLower = digitChar d := by decide
  simpa [h] using hall n hn

def spellMac : List (Option ℕ × Option ℕ) → Text
  | [] => []
  | [(a, b)] => [digitChar (a.getD 0), digitChar (b.getD 0)]
  | (a, b) :: rest => digitChar (a.getD 0) :: digitChar (b.getD 0) :: ':' :: spellMac rest

theorem macOctets_ne_nil {n : ℕ} {mac : Text} (h : hexOctets n mac = true) :
    macOctets mac ≠ [] := by
  unfold hexOctets at h
  split at h <;> simp_all [macOctets]

theorem toLower_eq_spellMac : ∀ {n : ℕ} {mac : Text}, hexOctets n mac = true →
    mac.map Char.toLower = spellMac (macOctets mac)
  | 0, _, h => by simp [hexOctets] at h
  | n + 1, mac, h => by
    have hdigit : ∀ {c : Char}, (digitOf c).isSome = true →
        c.toLower = digitChar ((digitOf c).getD 0) := by
      intro c hc
      obtain ⟨d, hd⟩ := Option.isSome_iff_exists.1 hc
      rw [toLower_of_digitOf hd, hd, Option.getD_some]
    unfold hexOctets at h
    split at h
    · cases h
    · simp only [Bool.and_eq_true] at h
      simp [macOctets, spellMac, hdigit h.1, hdigit h.2]
    · next k a b rest _ _ =>
      simp only [Bool.and_eq_true] at h
      obtain ⟨o, os, hos⟩ := List.exists_cons_of_ne_nil (macOctets_ne_nil h.2)
      simp only [List.map_cons, toLower_eq_spellMac h.2, macOctets, hos, spellMac,
        hdigit h.1.1, hdigit h.1.2, List.cons.injEq, true_and, and_true]
      decide
    · cases h

/-! ## Reservations -/

theorem pairwise_of_firstFault {α : Type*} {fault : List α → α → Option String} {R : α → α → Prop}
    (hR : ∀ e x, fault e x = none → ∀ y ∈ e, R y x) : ∀ {l earlier : List α},
    firstFault fault earlier l = none → l.Pairwise R ∧ ∀ y ∈ earlier, ∀ x ∈ l, R y x
  | [], _, _ => ⟨.nil, by simp⟩
  | x :: l, earlier, h => by
    unfold firstFault at h
    split at h
    · cases h
    · next hx =>
      obtain ⟨hl, hbefore⟩ := pairwise_of_firstFault hR h
      refine ⟨List.pairwise_cons.2 ⟨hbefore x (by simp), hl⟩, fun y hy => ?_⟩
      exact List.forall_mem_cons.2 ⟨hR _ _ hx y hy, hbefore y (List.mem_append_left _ hy)⟩

/-- Two reservations with nothing in common. -/
def Host.Apart (h h' : Host) : Prop :=
  h.name ≠ h'.name ∧ macOctets h.mac ≠ macOctets h'.mac ∧ bareIpv4 h.address ≠ bareIpv4 h'.address

/-- A reservation without a fault, given the ones before it. -/
structure Host.Sound (n : Network) (earlier : List Host) (h : Host) : Prop where
  mac : hexOctets 6 h.mac = true
  address : ∃ a, bareIpv4 h.address = some a ∧ n.base < a ∧ a < n.broadcast ∧ a ≠ n.own
  apart : ∀ e ∈ earlier, e.name ≠ h.name ∧ e.mac.map Char.toLower ≠ h.mac.map Char.toLower ∧
    e.address ≠ h.address

namespace Network

theorem size_pos (n : Network) : 0 < n.size := Nat.two_pow_pos _

theorem between_of_holds {n : Network} {a : ℕ} (h : n.holds a = true) :
    n.base ≤ a ∧ a ≤ n.broadcast := by
  have hbase : a / n.size * n.size = n.base := by simpa [holds] using h
  have hle := Nat.div_mul_le_self a n.size
  have hlt := Nat.lt_div_mul_add n.size_pos (a := a)
  unfold broadcast
  omega

theorem base_add_size_le {n : Network} (hown : n.own < 2 ^ 32) (hlen : n.length ≤ 30) :
    n.base + n.size ≤ 2 ^ 32 ∧ 4 ≤ n.size := by
  have hpow : n.size * 2 ^ n.length = 2 ^ 32 := by
    rw [size, ← pow_add]
    congr 1
    omega
  have hquot : n.own / n.size < 2 ^ n.length := Nat.div_lt_of_lt_mul (by omega)
  have hmul : (n.own / n.size + 1) * n.size ≤ 2 ^ n.length * n.size := Nat.mul_le_mul_right _ hquot
  refine ⟨?_, ?_⟩
  · rw [base, ← hpow, Nat.mul_comm n.size]
    linarith
  · calc 4 = 2 ^ 2 := rfl
      _ ≤ 2 ^ (32 - n.length) := Nat.pow_le_pow_right (by decide) (by omega)

end Network

theorem sound_of_hostFault {n : Network} {earlier : List Host} {h : Host}
    (hfault : hostFault n earlier h = none) : h.Sound n earlier := by
  unfold hostFault at hfault
  split at hfault
  · cases hfault
  split at hfault
  · cases hfault
  next hmac =>
  split at hfault
  · cases hfault
  next a ha =>
  split at hfault
  · cases hfault
  next hin =>
  split at hfault
  · cases hfault
  next hown =>
  split at hfault
  · cases hfault
  next hany =>
  simp only [Bool.or_eq_true, Bool.not_eq_true', decide_eq_true_eq, not_or,
    Bool.not_eq_false] at hin
  have hbetween := Network.between_of_holds hin.1.1
  refine ⟨by simpa [hardwareAddress] using hmac,
    ⟨a, ha, by omega, by omega, by simpa using hown⟩, fun e he => ?_⟩
  rw [Bool.not_eq_true, List.any_eq_false] at hany
  have := hany e he
  simp only [Bool.or_eq_true, decide_eq_true_eq, not_or] at this
  exact ⟨this.1.1, this.1.2, this.2⟩

/-- Hosts without a fault are sound and apart. -/
theorem sound_of_hostsFault {n : Network} {hosts : List Host} (h : hostsFault n hosts = none) :
    (∀ x ∈ hosts, ∃ earlier, x.Sound n earlier) ∧ hosts.Pairwise Host.Apart := by
  have hsound : ∀ {l earlier : List Host}, firstFault (hostFault n) earlier l = none →
      ∀ x ∈ l, ∃ earlier, x.Sound n earlier := by
    intro l
    induction l with
    | nil => simp
    | cons x l ih =>
      intro earlier h
      unfold firstFault at h
      split at h
      · cases h
      · next hx => exact List.forall_mem_cons.2 ⟨⟨_, sound_of_hostFault hx⟩, ih h⟩
  have hall := hsound h
  have hpair := (pairwise_of_firstFault (R := fun e x => e.name ≠ x.name ∧
    e.mac.map Char.toLower ≠ x.mac.map Char.toLower ∧ e.address ≠ x.address)
    (fun e x hx => (sound_of_hostFault hx).apart) h).1
  refine ⟨hall, hpair.imp_of_mem fun {x y} hx hy hne => ⟨hne.1, fun hmac => ?_, fun haddress => ?_⟩⟩
  · obtain ⟨_, hxs⟩ := hall x hx
    obtain ⟨_, hys⟩ := hall y hy
    exact hne.2.1 (by rw [toLower_eq_spellMac hxs.mac, toLower_eq_spellMac hys.mac, hmac])
  · obtain ⟨_, hxs⟩ := hall x hx
    obtain ⟨a, ha, -⟩ := hxs.address
    exact hne.2.2 (bareIpv4_injective ha (haddress ▸ ha))

/-! ## The range -/

def Server.statesRange (s : Server) : Bool := s.rangeStart.isSome || s.rangeEnd.isSome

/-- A range inside of a network, without the interface's own address. -/
def Network.Ranges (n : Network) (first last : ℕ) : Prop :=
  n.base < first ∧ first ≤ last ∧ last < n.broadcast ∧ ¬(first ≤ n.own ∧ n.own ≤ last)

theorem lt_of_bareIpv4 {text : Text} {a : ℕ} (h : bareIpv4 text = some a) : a < 2 ^ 32 := by
  obtain ⟨octets, -, rfl⟩ := bareIpv4_eq_some h
  exact toHost_lt octets

/-- The ends of a range, and when they are a range of the network. -/
theorem rangeEnds_spec {n : Network} {s : Server} {first last : ℕ} (hown : n.own < 2 ^ 32)
    (hlen : n.length ≤ 30) (h : rangeEnds n s = .ok (first, last)) :
    first < 2 ^ 32 ∧ last < 2 ^ 32 ∧
      (n.Ranges first last ↔ s.statesRange = true ∨ n.base + 100 < 2 ^ 32) := by
  obtain ⟨htop, hsize⟩ := n.base_add_size_le hown hlen
  unfold rangeEnds at h
  by_cases hstated : (s.rangeStart.isSome || s.rangeEnd.isSome) = true
  · rw [if_pos hstated] at h
    split at h
    · next a b ha hb =>
      split_ifs at h with hback hout hin
      simp only [Except.ok.injEq, Prod.mk.injEq] at h
      obtain ⟨rfl, rfl⟩ := h
      obtain ⟨start, -, hstart⟩ := Option.bind_eq_some_iff.1 ha
      obtain ⟨stop, -, hstop⟩ := Option.bind_eq_some_iff.1 hb
      simp only [Bool.or_eq_true, Bool.not_eq_true', decide_eq_true_eq, not_or,
        Bool.not_eq_false] at hout
      simp only [Bool.and_eq_true, decide_eq_true_eq] at hin
      have hfirst := Network.between_of_holds hout.1.1.1
      have hlast := Network.between_of_holds hout.1.1.2
      refine ⟨lt_of_bareIpv4 hstart, lt_of_bareIpv4 hstop, iff_of_true ?_ (.inl hstated)⟩
      exact ⟨by omega, by omega, by omega, hin⟩
    · cases h
  · rw [if_neg hstated] at h
    dsimp only at h
    split_ifs at h with hcut hsmall hin hsmall hin
    all_goals
      simp only [Except.ok.injEq, Prod.mk.injEq] at h
      obtain ⟨rfl, rfl⟩ := h
      simp only [Bool.or_eq_true, decide_eq_true_eq, not_or] at hsmall
      simp only [Bool.and_eq_true, decide_eq_true_eq] at hin
      have hfalse : s.statesRange = false := by simpa [Server.statesRange] using hstated
      have hbroad : n.broadcast < 2 ^ 32 := by
        unfold Network.broadcast
        omega
      refine ⟨by omega, by omega, ?_⟩
      rw [hfalse, Network.Ranges]
      simp only [Bool.false_eq_true, false_or]
      unfold Network.broadcast at *
      omega

/-- What is handed out is inside of the network. -/
structure Inside (n : Network) (hosts : List Host) (r : Range) : Prop where
  range : ∃ first last, bareIpv4 r.start = some first ∧ bareIpv4 r.last = some last ∧
    n.Ranges first last
  reserved : ∀ h ∈ hosts, ∃ a, bareIpv4 h.address = some a ∧ n.base < a ∧ a < n.broadcast ∧
    a ≠ n.own
  apart : hosts.Pairwise Host.Apart

theorem own_lt_of_networkOf {addressing : List AddressSource} {n : Network}
    (h : networkOf addressing = some n) : n.own < 2 ^ 32 := by
  obtain ⟨source, -, hsource⟩ := List.exists_of_findSome?_eq_some h
  split at hsource
  · split at hsource
    · obtain rfl := Option.some.inj hsource
      exact toHost_lt _
    · cases hsource
  · cases hsource

/-- What a range that is given rests on. -/
theorem dhcpServerRange_ok {i : Interface} {r : Range} {n : Network}
    (h : dhcpServerRange i = .ok r) (hrelay : i.server.relay = [])
    (hn : networkOf i.addressing = some n) : n.length ≤ 30 ∧ hostsFault n i.server.hosts = none ∧
      ∃ first last, rangeEnds n i.server = .ok (first, last) ∧ r.start = dotted first ∧
        r.last = dotted last := by
  simp only [dhcpServerRange, hn, hrelay] at h
  split_ifs at h with _ _ _ hlen hne
  · exact absurd rfl hne
  · unfold serverRange at h
    split at h
    · cases h
    · next first last hends =>
      split at h
      · cases h
      · next hnone =>
        obtain rfl := Except.ok.inj h
        simp only [Option.or_eq_none_iff] at hnone
        exact ⟨by omega, hnone.1.1.1, first, last, hends, rfl, rfl⟩

/-- What an interface serves is inside of its network exactly where its range is stated, or the
default one starts at an address. -/
theorem served_inside_iff {i : Interface} {r : Range} {n : Network}
    (h : dhcpServerRange i = .ok r) (hrelay : i.server.relay = [])
    (hn : networkOf i.addressing = some n) :
    Inside n i.server.hosts r ↔ i.server.statesRange = true ∨ n.base + 100 < 2 ^ 32 := by
  obtain ⟨hlen, hhosts, first, last, hends, hstart, hlast⟩ := dhcpServerRange_ok h hrelay hn
  obtain ⟨hfirst32, hlast32, hiff⟩ := rangeEnds_spec (own_lt_of_networkOf hn) hlen hends
  obtain ⟨hsound, hapart⟩ := sound_of_hostsFault hhosts
  rw [← hiff]
  constructor
  · rintro ⟨⟨a, b, ha, hb, hranges⟩, -, -⟩
    rw [hstart, bareIpv4_dotted hfirst32] at ha
    rw [hlast, bareIpv4_dotted hlast32] at hb
    obtain rfl := Option.some.inj ha
    obtain rfl := Option.some.inj hb
    exact hranges
  · intro hranges
    refine ⟨⟨first, last, ?_, ?_, hranges⟩, fun x hx => ?_, hapart⟩
    · rw [hstart, bareIpv4_dotted hfirst32]
    · rw [hlast, bareIpv4_dotted hlast32]
    · obtain ⟨_, hs⟩ := hsound x hx
      exact hs.address

def servedOn (address : String) : Interface where
  name := ['l', 'a', 'n']
  addressing := [.static { address }]
  server := {}

def reserved : List Host :=
  [⟨"printer".toList, "aa:bb:cc:dd:ee:01".toList, "192.168.1.10".toList⟩,
    ⟨"nas".toList, "aa:bb:cc:dd:ee:02".toList, "192.168.1.60".toList⟩]

/-- A network with two addresses kept for hosts, one of them in the range that is stated. -/
def keptOn : Interface where
  name := ['l', 'a', 'n']
  addressing := [.static { address := "192.168.1.1/24" }]
  server :=
    { rangeStart := some "192.168.1.50".toList
      rangeEnd := some "192.168.1.99".toList
      hosts := reserved }

/-- The usual network is served from its hundredth address on, and a stated range where it is. -/
theorem usual_inside :
    (∃ r, dhcpServerRange (servedOn "192.168.1.1/24") = .ok r ∧ Inside ⟨0xc0a80101, 24⟩ [] r) ∧
      ∃ r, dhcpServerRange keptOn = .ok r ∧ Inside ⟨0xc0a80101, 24⟩ reserved r :=
  ⟨⟨_, rfl, (served_inside_iff (i := servedOn "192.168.1.1/24") rfl rfl rfl).2 (.inr (by decide))⟩,
    ⟨_, rfl, (served_inside_iff (i := keptOn) rfl rfl rfl).2 (.inl rfl)⟩⟩

/-- The last network of the address space is served from an address at its other end. -/
theorem last_network_outside : ∃ r, dhcpServerRange (servedOn "255.255.255.200/26") = .ok r ∧
    networkOf (servedOn "255.255.255.200/26").addressing = some ⟨0xffffffc8, 26⟩ ∧
    ¬Inside ⟨0xffffffc8, 26⟩ [] r := by
  refine ⟨_, rfl, rfl, fun h => ?_⟩
  obtain ⟨first, last, hfirst, -, hranges⟩ := h.range
  obtain rfl := Option.some.inj ((@bareIpv4_dotted 36 (by decide)).symm.trans hfirst)
  exact absurd hranges.1 (by decide)

end Netcfgd.DhcpServer
