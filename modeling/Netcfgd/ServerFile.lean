import Netcfgd.BlockList
import Netcfgd.JsonRoundTrip
import Netcfgd.ResolverFiles

/-!
# The file of a DHCP server

Nothing of the document becomes a directive of its own : the configuration dnsmasq is started from
is read back, line by line and each split at its first `=`, as the directives it was made of
(`Compiled.readLines_render`). What the checks of `dhcpServerRange` and `dnsRecordCheck` are worth
here is that no value ends its line.
-/

namespace Netcfgd.DhcpServer

open Netcfgd.Compile (isSpace)
open Netcfgd.Resolver (Text unlines splitOn_unlines)

variable {text name : Text}

/-! ## Lines that are read -/

/-- What a line is read as : a comment, or split at its first `=`. -/
def readLine (line : Text) : Line :=
  match line with
  | '#' :: rest => .comment rest
  | _ =>
    if '=' ∈ line then .set (line.takeWhile (· ≠ '=')) ((line.dropWhile (· ≠ '=')).drop 1)
    else .flag line

/-- A file as the server reads it, line by line. -/
def readLines (text : Text) : List Line := (text.splitOn '\n').dropLast.map readLine

def Key (key : Text) : Prop :=
  '\n' ∉ key ∧ '=' ∉ key ∧ key.head?.any (fun c => c ≠ '#') = true

instance (key : Text) : Decidable (Key key) := inferInstanceAs (Decidable (_ ∧ _ ∧ _))

def Line.Whole : Line → Prop
  | comment text => '\n' ∉ text
  | flag key => Key key
  | set key value => Key key ∧ '\n' ∉ value

def Unbroken (text : Text) : Prop := '\n' ∉ text

/-- A document the compiler takes, and an interface of it that serves DHCP. -/
structure Compiled where
  document : Document
  interface : Interface
  lists : ∀ l ∈ document.blockLists, blockListCheck l = true
  /-- `lower_dhcp_server` takes no other server. -/
  dns : ∀ a ∈ interface.server.dns, (bareIpv4 a).isSome = true
  name : ∀ c ∈ interface.name, isSpace c = false

/-- The files of the daemon's own directory that a configuration names. -/
structure Paths where
  leases : Text
  block : Text
  plain : Unbroken leases ∧ Unbroken block

theorem Line.Whole.unbroken {l : Line} (h : l.Whole) : '\n' ∉ l.text := by
  cases l with
  | comment text =>
    have htext : '\n' ∉ text := h
    simpa [Line.text] using htext
  | flag key => exact h.1
  | set key value =>
    simp only [Line.text, List.mem_append, List.mem_cons, not_or]
    exact ⟨h.1.1, by decide, h.2⟩

theorem readLine_key {key : Text} (rest : Text) (h : Key key) :
    readLine (key ++ rest) =
      if '=' ∈ key ++ rest then
        .set ((key ++ rest).takeWhile (· ≠ '=')) (((key ++ rest).dropWhile (· ≠ '=')).drop 1)
      else .flag (key ++ rest) := by
  obtain ⟨-, -, hhead⟩ := h
  cases key with
  | nil => simp at hhead
  | cons c key =>
    have hc : c ≠ '#' := by simpa using hhead
    rw [List.cons_append, readLine]
    exact fun rest hrest => hc (List.cons.inj hrest).1

theorem Line.Whole.readLine_text {l : Line} (h : l.Whole) : readLine l.text = l := by
  cases l with
  | comment text => rfl
  | flag key =>
    have hread := readLine_key [] h
    rw [List.append_nil] at hread
    rw [Line.text, hread, if_neg h.2.1]
  | set key value =>
    have hkey : ∀ c ∈ key, decide (c ≠ '=') = true := fun c hc => by
      have : c ≠ '=' := fun heq => h.1.2.1 (heq ▸ hc)
      simpa using this
    rw [Line.text, readLine_key _ h.1, if_pos (by simp), List.takeWhile_append_of_pos hkey,
      List.dropWhile_append_of_pos hkey]
    simp

theorem readLines_unlines {lines : List Line} (h : ∀ l ∈ lines, l.Whole) :
    readLines (unlines (lines.map Line.text)) = lines := by
  have hsplit : (unlines (lines.map Line.text)).splitOn '\n' = lines.map Line.text ++ [[]] := by
    refine splitOn_unlines fun t ht => ?_
    obtain ⟨l, hl, rfl⟩ := List.mem_map.1 ht
    exact (h l hl).unbroken
  rw [readLines, hsplit, List.dropLast_concat, List.map_map]
  conv_rhs => rw [← List.map_id lines]
  exact List.map_congr_left fun l hl => (h l hl).readLine_text

/-! ## Values that stay on their line -/

instance (text : Text) : Decidable (Unbroken text) := inferInstanceAs (Decidable (¬_))

theorem Unbroken.append {a b : Text} (ha : Unbroken a) (hb : Unbroken b) : Unbroken (a ++ b) :=
  fun h => (List.mem_append.1 h).elim ha hb

theorem Unbroken.cons {c : Char} {a : Text} (hc : c ≠ '\n') (ha : Unbroken a) : Unbroken (c :: a) :=
  fun h => (List.mem_cons.1 h).elim (fun heq => hc heq.symm) ha

theorem unbroken_of_all {f : Char → Bool} (hf : f '\n' = false) (h : text.all f = true) :
    Unbroken text := by
  intro hmem
  rw [List.all_eq_true] at h
  exact absurd (h _ hmem) (by simp [hf])

theorem unbroken_intercalate {sep : Char} (hsep : sep ≠ '\n') : ∀ {texts : List Text},
    (∀ t ∈ texts, Unbroken t) → Unbroken ([sep].intercalate texts)
  | [], _ => (by decide : Unbroken [])
  | [t], h => by
    have ht := h t List.mem_cons_self
    simpa [List.intercalate] using ht
  | t :: u :: texts, h => by
    have hrest := unbroken_intercalate hsep fun x hx => h x (List.mem_cons_of_mem t hx)
    have hcons : [sep].intercalate (t :: u :: texts) =
        t ++ sep :: [sep].intercalate (u :: texts) := by
      simp [List.intercalate]
    rw [hcons]
    exact (h t List.mem_cons_self).append (hrest.cons hsep)

theorem unbroken_commas {texts : List Text} (h : ∀ t ∈ texts, Unbroken t) :
    Unbroken (commas texts) :=
  unbroken_intercalate (by decide) h

theorem unbroken_of_addressOf {a : Address} (h : addressOf text = some a) :
    Unbroken text := by
  have hprinted := (Address.lt_of_parse h).2
  rw [String.toList_ofList] at hprinted
  exact fun hmem => absurd (hprinted _ hmem) (by decide)

theorem unbroken_of_bareIpv4 (h : (bareIpv4 text).isSome = true) : Unbroken text := by
  unfold bareIpv4 at h
  split at h
  · rename_i hparse
    exact unbroken_of_addressOf hparse
  · cases h

theorem unbroken_of_bareAddress (h : bareAddress text = true) : Unbroken text := by
  unfold bareAddress at h
  cases hparse : addressOf text with
  | none => simp [hparse] at h
  | some a => exact unbroken_of_addressOf hparse

theorem unbroken_of_ipv6Suffix {n : ℕ} (h : ipv6Suffix text = some n) :
    Unbroken text := by
  unfold ipv6Suffix at h
  split at h
  · rename_i hparse
    exact unbroken_of_addressOf hparse
  · cases h

theorem unbroken_of_plainName (h : plainName name = true) : Unbroken name := by
  unfold plainName at h
  rw [Bool.and_eq_true] at h
  exact unbroken_of_all (by decide) h.2

theorem unbroken_of_dnsLabels : ∀ {name : Text} {label : ℕ} {last : Option Char},
    dnsLabels label last name = true → Unbroken name
  | [], _, _, _ => by decide
  | c :: name, label, last, h => by
    unfold dnsLabels at h
    split_ifs at h with hdot
    · simp only [Bool.and_eq_true] at h
      exact (unbroken_of_dnsLabels h.2).cons (hdot ▸ by decide)
    · simp only [Bool.and_eq_true] at h
      refine (unbroken_of_dnsLabels h.2).cons fun heq => ?_
      rw [heq] at h
      exact absurd h.1.1.1 (by decide)

theorem unbroken_of_dnsName (h : dnsName name = true) : Unbroken name := by
  unfold dnsName at h
  rw [Bool.and_eq_true] at h
  exact unbroken_of_dnsLabels h.2

theorem unbroken_of_optionText {most : ℕ} {refused : String}
    (h : optionText text most refused = true) : Unbroken text := by
  unfold optionText at h
  rw [Bool.and_eq_true] at h
  refine unbroken_of_all (f := fun c => isPrint c && c ∉ refused.toList) ?_ h.2
  rw [(by decide : isPrint '\n' = false), Bool.false_and]

theorem unbroken_of_hexOctets : ∀ {n : ℕ} {mac : Text}, hexOctets n mac = true → Unbroken mac
  | 0, _, h => by cases h
  | n + 1, [], h => by cases n <;> cases h
  | n + 1, [_], h => by cases n <;> cases h
  | n + 1, [a, b], h => by
    have hboth : (Inet.digitOf a).isSome = true ∧ (Inet.digitOf b).isSome = true := by
      cases n with
      | zero => simpa [hexOctets] using h
      | succ n => cases h
    have hdigit : ∀ c : Char, (Inet.digitOf c).isSome = true → c ≠ '\n' := by
      rintro c hc rfl
      exact absurd hc (by decide)
    exact Unbroken.cons (hdigit a hboth.1) (Unbroken.cons (hdigit b hboth.2) (by decide))
  | n + 1, a :: b :: c :: rest, h => by
    have hdigit : ∀ c : Char, (Inet.digitOf c).isSome = true → c ≠ '\n' := by
      rintro c hc rfl
      exact absurd hc (by decide)
    by_cases hc : c = ':'
    · subst hc
      simp only [hexOctets, Bool.and_eq_true] at h
      exact Unbroken.cons (hdigit a h.1.1) (Unbroken.cons (hdigit b h.1.2)
        (Unbroken.cons (by decide) (unbroken_of_hexOctets h.2)))
    · rw [hexOctets] at h
      · cases h
      all_goals simp [hc]

theorem unbroken_of_serviceName (h : serviceName name = true) : Unbroken name := by
  unfold serviceName at h
  rw [Bool.and_eq_true] at h
  have hcopy := unbroken_of_dnsName h.2
  intro hmem
  obtain ⟨i, hi, hget⟩ := List.getElem_of_mem hmem
  refine hcopy (List.mem_mapIdx.2 ⟨i, hi, ?_⟩)
  rw [hget, if_neg fun h => absurd h.1 (by decide)]

theorem unbroken_digits (ds : List ℕ) (h : ∀ d ∈ ds, d < 16) :
    Unbroken (ds.map Inet.digitChar) := by
  intro hmem
  obtain ⟨d, hd, heq⟩ := List.mem_map.1 hmem
  have hlt := h d hd
  interval_cases d <;> exact absurd heq (by decide)

theorem unbroken_intText (n : ℤ) : Unbroken (intText n) := by
  refine Unbroken.append ?_ (unbroken_digits _ fun d hd => ?_)
  · split_ifs <;> decide
  · have := Json.digits_lt n.natAbs d hd
    omega

theorem unbroken_hexText (n : ℕ) : Unbroken (hexText n) :=
  unbroken_digits [n / 16 % 16, n % 16] (by simp; omega)

theorem unbroken_dotted (n : ℕ) : Unbroken (dotted n) := by
  intro hmem
  rcases Inet.mem_dotted hmem with h | ⟨d, hd, h⟩
  · exact absurd h (by decide)
  · interval_cases d <;> exact absurd h (by decide)

/-! ## The server's file -/

namespace Compiled

variable (c : Compiled)

abbrev server : Server := c.interface.server

end Compiled

theorem Line.Whole.set {key value : Text} (hkey : Key key) (hvalue : Unbroken value) :
    (Line.set key value).Whole := ⟨hkey, hvalue⟩

theorem exists_of_firstFault {α : Type*} {fault : List α → α → Option String} :
    ∀ {l earlier : List α}, firstFault fault earlier l = none → ∀ x ∈ l, ∃ e, fault e x = none
  | [], _, _ => by simp
  | x :: l, earlier, h => by
    unfold firstFault at h
    split at h
    · cases h
    · rename_i hx
      exact List.forall_mem_cons.2 ⟨⟨earlier, hx⟩, exists_of_firstFault h⟩

theorem hostFault_none {n : Network} {e : List Host} {h : Host} (hfault : hostFault n e h = none) :
    plainName h.name = true ∧ hardwareAddress h.mac = true ∧
    (bareIpv4 h.address).isSome = true := by
  unfold hostFault at hfault
  by_cases hname : plainName h.name = true
  · by_cases hmac : hardwareAddress h.mac = true
    · rw [hname, hmac] at hfault
      cases haddress : bareIpv4 h.address with
      | none =>
        rw [haddress] at hfault
        cases hfault
      | some a => exact ⟨hname, hmac, rfl⟩
    · simp [hname, hmac] at hfault
  · simp [hname] at hfault

theorem unbroken_host {n : Network} {e : List Host} {h : Host} (hfault : hostFault n e h = none) :
    Unbroken h.mac ∧ Unbroken h.address ∧ Unbroken h.name := by
  obtain ⟨hname, hmac, haddress⟩ := hostFault_none hfault
  exact ⟨unbroken_of_hexOctets hmac, unbroken_of_bareIpv4 haddress, unbroken_of_plainName hname⟩

theorem unbroken_of_optionHexAt : ∀ {n : ℕ} {text : Text}, optionHexAt n text = true → Unbroken text
  | 0, _, h => by cases h
  | n + 1, [], h => by cases h
  | n + 1, [_], h => by cases h
  | n + 1, a :: b :: rest, h => by
    have hdigit : ∀ c : Char, ('0' ≤ c && c ≤ '9' || 'a' ≤ c && c ≤ 'f') = true → c ≠ '\n' := by
      rintro c hc rfl
      exact absurd hc (by decide)
    simp only [optionHexAt, Bool.and_eq_true, Bool.or_eq_true, decide_eq_true_eq] at h
    obtain ⟨⟨ha, hb⟩, hrest⟩ := h
    refine Unbroken.cons (hdigit a (by simpa using ha)) ?_
    refine Unbroken.cons (hdigit b (by simpa using hb)) ?_
    rcases hrest with rfl | ⟨hhead, hrest⟩
    · decide
    · cases rest with
      | nil => decide
      | cons c rest =>
        have hc : c = ':' := by simpa using hhead
        exact Unbroken.cons (hc ▸ by decide) (unbroken_of_optionHexAt hrest)

theorem customFault_none {e : List CustomOption} {o : CustomOption}
    (hfault : customFault e o = none) :
    plainName o.name = true ∧ codeTaken o.code = false ∧ optionValueFits o = true := by
  unfold customFault at hfault
  split_ifs at hfault with hname hcode hfits hshared
  simp only [Bool.or_eq_true, not_or, Bool.not_eq_true] at hcode
  exact ⟨by simpa using hname, hcode.2, by simpa using hfits⟩

theorem whole_customLine {e : List CustomOption} {o : CustomOption}
    (hfault : customFault e o = none) : (customLine o).Whole := by
  obtain ⟨-, -, hfits⟩ := customFault_none hfault
  refine Line.Whole.set (by decide) ((unbroken_intText _).append (Unbroken.cons (by decide) ?_))
  unfold optionValueFits at hfits
  cases hkind : o.kind with
  | ip =>
    simp only [hkind, Bool.and_eq_true, List.all_eq_true] at hfits
    exact unbroken_commas fun a ha => unbroken_of_bareIpv4 (hfits.1.1.2 a ha)
  | text =>
    simp only [hkind, Bool.and_eq_true] at hfits
    cases htext : o.text with
    | none => simp [htext] at hfits
    | some text =>
      have hvalue : Unbroken text := unbroken_of_optionText (by simpa [htext] using hfits.1.1)
      exact Unbroken.cons (by decide) (hvalue.append (by decide))
  | hex =>
    simp only [hkind, Bool.and_eq_true] at hfits
    cases htext : o.text with
    | none => simp [htext] at hfits
    | some text =>
      have hvalue : Unbroken text := unbroken_of_optionHexAt (n := 255) (by
        rw [htext] at hfits
        exact hfits.1.1)
      rw [Option.getD_some]
      dsimp only
      split_ifs
      · exact hvalue
      · exact unbroken_intText _
  | u8 => exact unbroken_intText _
  | u16 => exact (unbroken_hexText _).append (Unbroken.cons (by decide) (unbroken_hexText _))
  | u32 =>
    refine Unbroken.append ?_ (Unbroken.cons (by decide) (unbroken_hexText _))
    refine Unbroken.append ?_ (Unbroken.cons (by decide) (unbroken_hexText _))
    exact (unbroken_hexText _).append (Unbroken.cons (by decide) (unbroken_hexText _))
  | bool => exact unbroken_intText _

theorem ite_some_eq_none {p : Prop} [Decidable p] {why : String} {e : Option String} :
    (if p then some why else e) = none ↔ ¬p ∧ e = none := by
  by_cases hp : p <;> simp [hp]

theorem optionsFault_none {n : Network} {s : Server} (hfault : optionsFault n s = none) :
    (∀ g ∈ s.gateway, (bareIpv4 g).isSome = true) ∧ (∀ d ∈ s.domain, dnsName d = true) ∧
      (∀ a ∈ s.ntp, (bareIpv4 a).isSome = true) ∧
      (∀ f ∈ s.bootFile, optionText f 127 ",\\\" " = true) ∧
      (s.bootFile = none → s.bootServer = none) ∧
      (∀ a ∈ s.bootServer, (bareIpv4 a).isSome = true) ∧ (∀ t ∈ s.tftpServer, dnsName t = true) ∧
      ∀ w ∈ s.wpad, optionText w 255 "\"\\ " = true := by
  simp only [optionsFault, ite_some_eq_none] at hfault
  obtain ⟨hgateway, hdomain, hntp, hboot, hneeds, hserver, htftp, hwpad, -⟩ := hfault
  refine ⟨fun g hg => ?_, fun d hd => ?_, fun a ha => ?_, fun f hf => ?_, fun hnone => ?_,
    fun a ha => ?_, fun t ht => ?_, fun w hw => ?_⟩
  · rw [Option.mem_def] at hg
    cases haddress : bareIpv4 g with
    | none => simp [hg, haddress] at hgateway
    | some a => rfl
  · rw [Option.mem_def] at hd
    simpa [hd] using hdomain
  · rw [List.any_eq_true, not_exists] at hntp
    cases haddress : bareIpv4 a with
    | none => exact absurd ⟨ha, by simp [haddress]⟩ (hntp a)
    | some n => rfl
  · rw [Option.mem_def] at hf
    simpa only [hf, Option.any_some, Bool.not_eq_true', Bool.not_eq_false] using hboot
  · rw [hnone] at hneeds
    simpa using hneeds
  · rw [Option.mem_def] at ha
    cases haddress : bareIpv4 a with
    | none => simp [ha, haddress] at hserver
    | some n => rfl
  · rw [Option.mem_def] at ht
    simpa [ht] using htftp
  · rw [Option.mem_def] at hw
    rw [hw, Option.any_some, Bool.or_eq_true, not_or] at hwpad
    simpa only [Bool.not_eq_true', Bool.not_eq_false] using hwpad.1

theorem whole_optionLines {n : Network} {s : Server}
    (hdns : ∀ a ∈ s.dns, (bareIpv4 a).isSome = true)
    (hfault : optionsFault n s = none) : ∀ l ∈ optionLines s, l.Whole := by
  obtain ⟨hgateway, hdomain, hntp, hboot, -, hserver, htftp, hwpad⟩ := optionsFault_none hfault
  have hgateway : ∀ g ∈ s.gateway, Unbroken g := fun g hg => unbroken_of_bareIpv4 (hgateway g hg)
  have hdomain : ∀ d ∈ s.domain, Unbroken d := fun d hd => unbroken_of_dnsName (hdomain d hd)
  have hntp : ∀ a ∈ s.ntp, Unbroken a := fun a ha => unbroken_of_bareIpv4 (hntp a ha)
  have hboot : ∀ f ∈ s.bootFile, Unbroken f := fun f hf => unbroken_of_optionText (hboot f hf)
  have hserver : ∀ a ∈ s.bootServer, Unbroken a := fun a ha => unbroken_of_bareIpv4 (hserver a ha)
  have htftp : ∀ t ∈ s.tftpServer, Unbroken t := fun t ht => unbroken_of_dnsName (htftp t ht)
  have hwpad : ∀ w ∈ s.wpad, Unbroken w := fun w hw => unbroken_of_optionText (hwpad w hw)
  have hdns : Unbroken (commas (['6'] :: s.dns)) := unbroken_commas
    (List.forall_mem_cons.2 ⟨by decide, fun a ha => unbroken_of_bareIpv4 (hdns a ha)⟩)
  have hntps : Unbroken (commas ("42".toList :: s.ntp)) := unbroken_commas
    (List.forall_mem_cons.2 ⟨by decide, hntp⟩)
  have hkey : Key "dhcp-option".toList := by decide
  intro l hl
  unfold optionLines at hl
  simp only [List.mem_append, List.mem_map, List.mem_flatMap, Option.mem_toList] at hl
  rcases hl with (((((hl | ⟨g, hg, rfl⟩) | ⟨d, hd, hl⟩) | hl) | ⟨f, hf, rfl⟩) | ⟨t, ht, rfl⟩) |
    ⟨w, hw, rfl⟩
  · split_ifs at hl
    · cases hl
    · rw [List.mem_singleton.1 hl]
      exact .set hkey hdns
  · exact .set hkey (Unbroken.append (by decide) (hgateway g hg))
  · rcases List.mem_cons.1 hl with rfl | hl
    · exact .set (by decide) (hdomain d hd)
    · split_ifs at hl
      · rw [List.mem_singleton.1 hl]
        exact .set (by decide) (Unbroken.cons (by decide) ((hdomain d hd).append (by decide)))
      · cases hl
  · split_ifs at hl
    · cases hl
    · rw [List.mem_singleton.1 hl]
      exact .set hkey hntps
  · refine .set (by decide) ((hboot f hf).append ?_)
    cases haddress : s.bootServer with
    | none => decide
    | some a => exact Unbroken.append (by decide) (hserver a haddress)
  · exact .set hkey (((by decide : Unbroken "66,\"".toList).append (htftp t ht)).append (by decide))
  · exact .set hkey
      (((by decide : Unbroken "252,\"".toList).append (hwpad w hw)).append (by decide))

theorem record_checked {r : DnsRecord} (h : dnsRecordCheck r = true) :
    (serviceName r.name = true ∨ dnsName r.name = true) ∧ (∀ c ∈ r.cname, dnsName c = true) ∧
      (∀ m ∈ r.mx, dnsName m = true) ∧ (∀ t ∈ r.txt, optionText t 255 "\"\\" = true) ∧
      (∀ s ∈ r.srv, dnsName s = true) ∧ (∀ a ∈ r.address, bareAddress a = true) ∧
      (∀ f ∈ r.forward, bareAddress f = true) ∧ (r.mx = none → r.preference = none) ∧
      (r.srv = none → r.port = none ∧ r.priority = none ∧ r.weight = none) ∧
      (r.srv ≠ none → r.port ≠ none) ∧
      (r.address ≠ [] ∨ r.mx ≠ none ∨ r.txt ≠ none ∨ r.srv ≠ none ∨ r.cname ≠ none ∨
        r.forward ≠ []) := by
  unfold dnsRecordCheck at h
  simp only [Bool.and_eq_true, List.all_eq_true, Option.all_eq_true] at h
  obtain ⟨⟨⟨⟨⟨⟨⟨⟨⟨⟨⟨⟨hname, -⟩, -⟩, hanswers⟩, hcname⟩, hmx⟩, hpreference⟩, htxt⟩, hsrv⟩, hport⟩,
    hnumbers⟩, haddress⟩, hforward⟩ := h
  refine ⟨?_, hcname, hmx, htxt, hsrv, haddress, hforward, fun hnone => ?_, fun hnone => ?_,
    fun hsome hnone => ?_, ?_⟩
  · split_ifs at hname
    · exact .inl hname
    · exact .inr hname
  · simpa [hnone] using hpreference
  · simpa [hnone, and_assoc] using hnumbers
  · rw [← Option.isSome_iff_ne_none] at hsome
    simp [hsome, hnone] at hport
  · simpa [Option.isSome_iff_ne_none, or_assoc] using hanswers

theorem unbroken_record {r : DnsRecord} (h : dnsRecordCheck r = true) :
    Unbroken r.name ∧ (∀ c ∈ r.cname, Unbroken c) ∧ (∀ m ∈ r.mx, Unbroken m) ∧
      (∀ t ∈ r.txt, Unbroken t) ∧ (∀ s ∈ r.srv, Unbroken s) ∧ (∀ a ∈ r.address, Unbroken a) ∧
      ∀ f ∈ r.forward, Unbroken f := by
  obtain ⟨hname, hcname, hmx, htxt, hsrv, haddress, hforward, -⟩ := record_checked h
  exact ⟨hname.elim unbroken_of_serviceName unbroken_of_dnsName,
    fun c hc => unbroken_of_dnsName (hcname c hc), fun m hm => unbroken_of_dnsName (hmx m hm),
    fun t ht => unbroken_of_optionText (htxt t ht), fun s hs => unbroken_of_dnsName (hsrv s hs),
    fun a ha => unbroken_of_bareAddress (haddress a ha),
    fun f hf => unbroken_of_bareAddress (hforward f hf)⟩

theorem whole_recordLines {r : DnsRecord} (h : dnsRecordCheck r = true) :
    ∀ l ∈ recordLines r, l.Whole := by
  obtain ⟨hname, hcname, hmx, htxt, hsrv, haddress, hforward⟩ := unbroken_record h
  have hcomma : ∀ {a b : Text}, Unbroken a → Unbroken b → Unbroken (a ++ ',' :: b) :=
    fun ha hb => ha.append (hb.cons (by decide))
  intro l hl
  unfold recordLines at hl
  simp only [List.mem_append, List.mem_map, Option.mem_toList] at hl
  rcases hl with ((((hl | ⟨c, hc, rfl⟩) | ⟨m, hm, rfl⟩) | ⟨t, ht, rfl⟩) | ⟨s, hs, rfl⟩) |
    ⟨f, hf, rfl⟩
  · split_ifs at hl
    · cases hl
    · rw [List.mem_singleton.1 hl]
      exact .set (by decide) (unbroken_commas (List.forall_mem_cons.2 ⟨hname, haddress⟩))
  · exact .set (by decide) (hcomma hname (hcname c hc))
  · exact .set (by decide) (hcomma (hcomma hname (hmx m hm)) (unbroken_intText _))
  · exact .set (by decide) ((hcomma hname ((htxt t ht).cons (by decide))).append (by decide))
  · exact .set (by decide) (hcomma (hcomma (hcomma (hcomma hname (hsrv s hs)) (unbroken_intText _))
      (unbroken_intText _)) (unbroken_intText _))
  · refine .set (by decide) (Unbroken.cons (by decide) ?_)
    exact hname.append ((hforward f hf).cons (by decide))

theorem whole_forwarderLines (d : Document) (s : Server) (paths : Paths) :
    ∀ l ∈ forwarderLines d s paths.block, l.Whole := by
  intro l hl
  unfold forwarderLines at hl
  split_ifs at hl with hforward hblock
  · rw [List.append_nil] at hl
    obtain ⟨r, hr, hl⟩ := List.mem_flatMap.1 hl
    exact whole_recordLines (by simpa using (List.mem_filter.1 hr).2) l hl
  · rcases List.mem_append.1 hl with hl | hl
    · obtain ⟨r, hr, hl⟩ := List.mem_flatMap.1 hl
      exact whole_recordLines (by simpa using (List.mem_filter.1 hr).2) l hl
    · rw [List.mem_singleton.1 hl]
      exact .set (by decide) paths.plain.2
  · cases hl

theorem whole_portLines (s : Server) : ∀ l ∈ portLines s, l.Whole := by
  unfold portLines
  split_ifs
  · simp only [List.forall_mem_cons, List.not_mem_nil, false_imp_iff, implies_true, and_true]
    exact ⟨.set (by decide) (by decide), .set (by decide) (by decide),
      (by decide : Key "domain-needed".toList), (by decide : Key "bogus-priv".toList)⟩
  · simp only [List.forall_mem_cons, List.not_mem_nil, false_imp_iff, implies_true, and_true]
    exact .set (by decide) (by decide)

namespace Compiled

variable {c : Compiled} {r : Range}

theorem unbroken_name (c : Compiled) : Unbroken c.interface.name :=
  fun h => absurd (c.name _ h) (by decide)

theorem unbroken_range6 {i : Interface} (h : range6Fault i = none) :
    (∀ a ∈ i.server.range6Start, Unbroken a) ∧ ∀ a ∈ i.server.range6End, Unbroken a := by
  unfold range6Fault at h
  split at h
  · rename_i hstart hend
    simp [hstart, hend]
  · split at h
    · rename_i hfirst hlast
      refine ⟨fun a ha => ?_, fun a ha => ?_⟩
      · rw [Option.mem_def] at ha
        rw [ha] at hfirst
        exact unbroken_of_ipv6Suffix hfirst
      · rw [Option.mem_def] at ha
        rw [ha] at hlast
        exact unbroken_of_ipv6Suffix hlast
    · cases h

theorem range_inv {i : Interface} (h : dhcpServerRange i = .ok r) :
    (i.server.block ≠ [] → i.server.dnsForward = true) ∧
      ∃ n : Network, r.router = n.router ∧
        (i.server.relay ≠ [] ∧ relayOffers i.server = false ∧
            (∀ a ∈ i.server.relay, (bareIpv4 a).isSome = true) ∨
          i.server.relay = [] ∧ (∃ first last, r.start = dotted first ∧ r.last = dotted last) ∧
            hostsFault n i.server.hosts = none ∧ optionsFault n i.server = none ∧
            customsFault i.server.options = none ∧ range6Fault i = none) := by
  unfold dhcpServerRange at h
  cases hnetwork : networkOf i.addressing with
  | none =>
    rw [hnetwork] at h
    dsimp only at h
    split_ifs at h
  | some n =>
    rw [hnetwork] at h
    dsimp only at h
    split_ifs at h with hintercept hblock hlabels hsmall hrelay
    · have hforward : i.server.block ≠ [] → i.server.dnsForward = true := by simpa using hblock
      unfold relayRange at h
      split_ifs at h with hoffers hown
      refine ⟨hforward, n, by cases h; rfl, .inl ⟨hrelay, by simpa using hoffers, fun a ha => ?_⟩⟩
      rw [List.any_eq_true, not_exists] at hown
      cases haddress : bareIpv4 a with
      | none => exact absurd ⟨ha, by simp [haddress]⟩ (hown a)
      | some x => rfl
    · have hforward : i.server.block ≠ [] → i.server.dnsForward = true := by simpa using hblock
      unfold serverRange at h
      cases hends : rangeEnds n i.server with
      | error why =>
        rw [hends] at h
        cases h
      | ok ends =>
        rw [hends] at h
        dsimp only at h
        split at h
        · cases h
        rename_i hfaults
        simp only [Option.or_eq_none_iff] at hfaults
        obtain ⟨⟨⟨hhosts, hoptions⟩, hcustoms⟩, hrange6⟩ := hfaults
        cases h
        exact ⟨hforward, n, rfl,
          .inr ⟨not_not.1 hrelay, ⟨_, _, rfl, rfl⟩, hhosts, hoptions, hcustoms, hrange6⟩⟩

theorem range_cases (h : dhcpServerRange c.interface = .ok r) :
    ∃ n : Network, r.router = n.router ∧
      (c.server.relay ≠ [] ∧ (∀ a ∈ c.server.relay, Unbroken a) ∨
        c.server.relay = [] ∧ (Unbroken r.start ∧ Unbroken r.last) ∧
          (∀ x ∈ c.server.hosts, Unbroken x.mac ∧ Unbroken x.address ∧ Unbroken x.name) ∧
          optionsFault n c.server = none ∧ (∀ o ∈ c.server.options, (customLine o).Whole) ∧
          (∀ a ∈ c.server.range6Start, Unbroken a) ∧ ∀ a ∈ c.server.range6End, Unbroken a) := by
  obtain ⟨-, n, hrouter, ⟨hrelay, -, haddresses⟩ |
    ⟨hrelay, ⟨first, last, hstart, hlast⟩, hhosts, hoptions, hcustoms, hrange6⟩⟩ := range_inv h
  · exact ⟨n, hrouter, .inl ⟨hrelay, fun a ha => unbroken_of_bareIpv4 (haddresses a ha)⟩⟩
  · refine ⟨n, hrouter, .inr ⟨hrelay, ⟨hstart ▸ unbroken_dotted _, hlast ▸ unbroken_dotted _⟩,
      fun x hx => ?_, hoptions, fun o ho => ?_, unbroken_range6 hrange6⟩⟩
    · obtain ⟨e, he⟩ := exists_of_firstFault hhosts x hx
      exact unbroken_host he
    · obtain ⟨e, he⟩ := exists_of_firstFault hcustoms o ho
      exact whole_customLine he

theorem whole_directiveLines (paths : Paths) (h : dhcpServerRange c.interface = .ok r) :
    ∀ l ∈ directiveLines c.document c.interface r paths.leases paths.block, l.Whole := by
  have hname := c.unbroken_name
  have hlease : Unbroken (intText (c.server.lease.getD leaseDefault)) := unbroken_intText _
  obtain ⟨n, hrouter, hcases⟩ := range_cases h
  intro l hl
  unfold directiveLines at hl
  simp only [List.mem_append] at hl
  rcases hl with (hl | hl) | hl
  · exact whole_portLines _ l hl
  · rcases hcases with ⟨hrelay, haddresses⟩ |
      ⟨hrelay, hrange, hhosts, hoptions, hcustoms, hfirst, hlast⟩
    · rw [if_pos hrelay] at hl
      unfold relayLines at hl
      simp only [List.mem_append, List.mem_map] at hl
      rcases hl with hl | ⟨a, ha, rfl⟩
      · revert l
        simp only [List.forall_mem_cons, List.not_mem_nil, false_imp_iff, implies_true, and_true]
        exact ⟨.set (by decide) hname, (by decide : Key "bind-interfaces".toList),
          .set (by decide) (by decide)⟩
      · have hown : Unbroken (r.router.takeWhile (· ≠ '/')) := by
          intro hmem
          rw [hrouter, Network.router] at hmem
          rcases List.mem_append.1 ((List.takeWhile_prefix _).mem hmem) with hmem | hmem
          · exact unbroken_dotted _ hmem
          · rcases List.mem_cons.1 hmem with heq | hmem
            · exact absurd heq (by decide)
            · obtain ⟨d, hd, heq⟩ := Inet.exists_of_mem_digits (by omega) hmem
              interval_cases d <;> exact absurd heq (by decide)
        exact .set (by decide) (hown.append ((haddresses a ha).cons (by decide)))
    · rw [if_neg (not_not.2 hrelay)] at hl
      unfold serverLines at hl
      simp only [List.mem_append, List.mem_map] at hl
      rcases hl with (((hl | hl) | ⟨x, hx, rfl⟩) | hl) | ⟨o, ho, rfl⟩
      · revert l
        simp only [List.forall_mem_cons, List.not_mem_nil, false_imp_iff, implies_true, and_true]
        refine ⟨.set (by decide) hname, (by decide : Key "bind-interfaces".toList),
          (by decide : Key "dhcp-authoritative".toList), .set (by decide) (by decide),
          .set (by decide) (unbroken_commas ?_), .set (by decide) paths.plain.1⟩
        simp only [List.forall_mem_cons, List.not_mem_nil, false_imp_iff, implies_true, and_true]
        exact ⟨hname, hrange.1, hrange.2, hlease⟩
      · split at hl
        · rename_i first last hs hl'
          rw [List.mem_singleton.1 hl]
          refine .set (by decide) (unbroken_commas ?_)
          simp only [List.forall_mem_cons, List.not_mem_nil, false_imp_iff, implies_true, and_true]
          exact ⟨hfirst _ hs, hlast _ hl', Unbroken.append (by decide) hname, by decide, hlease⟩
        · cases hl
      · obtain ⟨hmac, haddress, hhost⟩ := hhosts x hx
        refine .set (by decide) (unbroken_commas ?_)
        simp only [List.forall_mem_cons, List.not_mem_nil, false_imp_iff, implies_true, and_true]
        exact ⟨hmac, haddress, hhost⟩
      · exact whole_optionLines c.dns hoptions l hl
      · exact hcustoms o ho
  · exact whole_forwarderLines _ _ paths l hl

theorem unbroken_digestText (digest : UInt32) : Unbroken (digestText digest) :=
  (((unbroken_hexText _).append (unbroken_hexText _)).append (unbroken_hexText _)).append
    (unbroken_hexText _)

theorem unbroken_counted {n : ℕ} {what : String} (h : Unbroken what.toList) :
    Unbroken (counted n what) := by
  refine Unbroken.append ((unbroken_intText _).append (h.cons (by decide))) ?_
  split_ifs <;> decide

theorem unbroken_blocksPart (files : Text → Option Text) :
    Unbroken (blocksPart c.document files c.server) := by
  unfold blocksPart
  split_ifs
  · exact Unbroken.append (Unbroken.append (by decide) (unbroken_counted (by decide)))
      ((unbroken_digestText _).cons (by decide))
  · decide

theorem unbroken_blanks {texts : List Text} (h : ∀ t ∈ texts, Unbroken t) :
    Unbroken (texts.flatMap (' ' :: ·)) := by
  intro hmem
  obtain ⟨t, ht, hmem⟩ := List.mem_flatMap.1 hmem
  exact (h t ht).cons (by decide) hmem

theorem unbroken_serverSummary (hrange : Unbroken r.start ∧ Unbroken r.last)
    (hfirst : ∀ a ∈ c.server.range6Start, Unbroken a)
    (hlast : ∀ a ∈ c.server.range6End, Unbroken a) :
    Unbroken (serverSummary c.document c.server r) := by
  have hdns : ∀ a ∈ c.server.dns, Unbroken a := fun a ha => unbroken_of_bareIpv4 (c.dns a ha)
  unfold serverSummary
  refine Unbroken.append (Unbroken.append (Unbroken.append (Unbroken.append (Unbroken.append
    (Unbroken.append (Unbroken.append (Unbroken.append (Unbroken.append
      (hrange.1.append (hrange.2.cons (by decide))) (by decide)) (unbroken_intText _)) (by decide))
      ?_) ?_) ?_) ?_) ?_) ?_
  · split_ifs
    · exact unbroken_intercalate (by decide) hdns
    · decide
    · decide
  · split_ifs <;> decide
  · split
    · rename_i first last hs hl
      exact Unbroken.append (Unbroken.append (by decide) (hfirst _ hs))
        ((hlast _ hl).cons (by decide))
    · decide
  · split_ifs
    · decide
    · exact Unbroken.append (Unbroken.append (by decide) (unbroken_counted (by decide)))
        ((unbroken_digestText _).cons (by decide))
  · split_ifs
    · exact Unbroken.append (by decide) (unbroken_digestText _)
    · decide
  · split_ifs
    · exact Unbroken.append (Unbroken.append (by decide) (unbroken_counted (by decide)))
        ((unbroken_digestText _).cons (by decide))
    · decide

theorem unbroken_summary {files : Text → Option Text} {summary : Text}
    (hr : dhcpServerRange c.interface = .ok r)
    (h : dhcpServerSummary c.document files c.interface = some summary) : Unbroken summary := by
  unfold dhcpServerSummary at h
  rw [hr] at h
  dsimp only at h
  obtain ⟨n, -, hcases⟩ := range_cases hr
  have hbody : Unbroken (if c.server.relay ≠ [] then relaySummary c.server
      else serverSummary c.document c.server r) := by
    rcases hcases with ⟨hrelay, haddresses⟩ | ⟨hrelay, hrange, -, -, -, hfirst, hlast⟩
    · rw [if_pos hrelay]
      refine Unbroken.append (Unbroken.append (by decide) (unbroken_blanks haddresses)) ?_
      split_ifs <;> decide
    · rw [if_neg (not_not.2 hrelay)]
      exact unbroken_serverSummary hrange hfirst hlast
  by_cases hsize : ((if c.server.relay ≠ [] then relaySummary c.server
      else serverSummary c.document c.server r) ++
        blocksPart c.document files c.server).length < summaryMax
  · rw [if_pos hsize] at h
    rw [← Option.some_inj.1 h]
    exact hbody.append (unbroken_blocksPart files)
  · rw [if_neg hsize] at h
    cases h

/-- A rendered file reads back as its head and its directives. -/
theorem readLines_render {files : Text → Option Text} {paths : Paths} {text : Text}
    (h : dhcpServerRender c.document files c.interface paths.leases paths.block = some text) :
    ∃ r summary, dhcpServerRange c.interface = .ok r ∧
      dhcpServerSummary c.document files c.interface = some summary ∧
      text = unlines ((headLines c.interface.name summary ++
        directiveLines c.document c.interface r paths.leases paths.block).map Line.text) ∧
      readLines text = headLines c.interface.name summary ++
        directiveLines c.document c.interface r paths.leases paths.block := by
  unfold dhcpServerRender at h
  split at h
  · rename_i r summary hr hsummary
    dsimp only at h
    split_ifs at h
    have htext := (Option.some_inj.1 h).symm
    refine ⟨r, summary, hr, hsummary, htext, ?_⟩
    rw [htext]
    refine readLines_unlines fun l hl => ?_
    rw [List.mem_append] at hl
    rcases hl with hl | hl
    · unfold headLines at hl
      revert l
      simp only [List.forall_mem_cons, List.not_mem_nil, false_imp_iff, implies_true, and_true]
      exact ⟨Unbroken.append (Unbroken.append (by decide) c.unbroken_name) (by decide),
        Unbroken.append (by decide) (unbroken_summary hr hsummary)⟩
    · exact whole_directiveLines paths hr l hl
  · cases h

end Compiled

end Netcfgd.DhcpServer
