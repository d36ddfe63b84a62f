import Netcfgd.DnsPlan
import Netcfgd.ResolverFiles
import Netcfgd.WrittenParts

/-!
# A DNS delivery settles

What was delivered is recorded as it is (`noteDns_eq`) : the plan and the record write a policy the
same way (`dnsPolicy_write`), every policy of a document is read back (`kept_dnsScopes`), and one
that could be written among others can be written to be compared. So a `dns.apply` that is carried
out and recorded leaves nothing to plan, and a record of the scopes there are (`delivery_settles`).

Its inverse is carried out the same way, which delivers and records the same scopes : it does not
bring back what was recorded before. Nor does a delivery settle for an interface by the name of the
global scope, of which the record holds two, or with a search domain of a report that is not UTF-8,
which cannot be recorded (`dns_not_settled`).
-/

namespace Netcfgd.DnsPlan

open Json (ascii asciis Call Writer document done_of_part)
open Model (CText cText Kind DnsServer RoutingDomain DnsPolicy AppliedDns WordSet dnsModes
  dnssecPostures dnsTransports execMode defaultLimit dnsPolicy dnsServer routingDomain appliedDns
  address)
open Resolver (Text Report)

def PortsFit (policy : Resolver.Policy) : Prop :=
  ∀ server ∈ policy.servers, ∀ port, server.port = some port → 0 ≤ port ∧ port ≤ 65535

/-- What is checked of a document : no two of its interfaces have one name, and a port is one. -/
structure Checked (d : Resolver.Document) : Prop where
  names : (d.interfaces.map fun i => stringOf i.name).Nodup
  dns : PortsFit d.dns
  interfaces : ∀ i ∈ d.interfaces, ∀ policy, i.dns = some policy → PortsFit policy

/-! ## The plan writes a policy as the record does -/

theorem dnsServer_write (server : DnsServer) : dnsServer.write server =
    .objectBegin :: (memberText "addr" server.addr ++ (memberOptint "port" server.port ++
      (memberText "sni" server.sni ++ [Call.objectEnd]))) := by
  obtain ⟨addr, port, sni⟩ := server
  cases addr <;> cases port <;> cases sni <;> rfl

theorem routingDomain_write (domain : RoutingDomain) : routingDomain.write domain =
    .objectBegin :: (memberText "suffix" domain.suffix ++
      [Call.key (some (asciis "exclusive")), .scalar (.bool domain.exclusive), .objectEnd]) := by
  obtain ⟨suffix, exclusive⟩ := domain
  cases suffix <;> rfl

theorem memberOptenum_eq {name : String} {value : Option Int64} {words : WordSet}
    (h : ((Kind.choice words).optional name false true).Sound value) :
    memberOptenum name value words = if value.isNone then [] else
      .key (some (asciis name)) :: ((Kind.choice words).optional name false true).write value := by
  cases value with
  | none => rfl
  | some n =>
    obtain ⟨word, hword⟩ := Option.isSome_iff_exists.1 (h n rfl)
    change memberOptenum name (some n) words = .key _ :: words.calls n.toInt32.toInt
    simp only [memberOptenum, WordSet.calls, Option.bind_some, hword]

theorem memberStrings_eq (name : String) (list : List CText) :
    memberStrings name list = .key (some (asciis name)) :: Kind.str.list.write list := by
  rw [memberStrings, List.map_eq_flatMap]
  rfl

theorem writeMode_eq {mode : Model.DnsModeValue} (h : Model.dnsMode.Sound mode) :
    writeMode mode = .key (some (asciis "mode")) :: Model.dnsMode.write mode := by
  change writeMode mode = _ :: Model.writeDnsMode mode
  unfold writeMode Model.writeDnsMode
  by_cases hexec : mode.mode = execMode
  · have hcommand : mode.command.isSome = true := by simpa [Model.dnsMode, hexec] using h
    obtain ⟨command, hcommand⟩ := Option.isSome_iff_exists.1 hcommand
    rw [if_pos hexec, if_pos hexec, hcommand]
    rfl
  · rw [if_neg hexec, if_neg hexec]

theorem dnsPolicy_write {policy : DnsPolicy} (h : dnsPolicy.Sound policy) :
    dnsPolicy.write policy = writePolicy policy := by
  obtain ⟨hmode, -, -, -, -, hdnssec, htransport, -⟩ := h
  obtain ⟨mode, servers, search, domains, options, dnssec, transport⟩ := policy
  have hservers := funext dnsServer_write
  have hdomains := funext routingDomain_write
  rw [writePolicy, writeMode_eq hmode, memberOptenum_eq hdnssec, memberOptenum_eq htransport,
    memberStrings_eq, memberStrings_eq, ← hservers, ← hdomains]
  simp [dnsPolicy, Kind.struct, Model.dnsPolicyTable, Model.Table.write, Kind.always, Kind.member,
    Kind.allOf, Kind.list, Kind.optional]

/-! ## What is recorded -/

theorem not_failed_of_done {w : Writer} (h : w.done = true) : w.buf.failed = false := by
  have hnot := (of_decide_eq_true h).1
  rw [Writer.hasFailed, decide_eq_true_iff] at hnot
  exact eq_false_of_ne_true (not_or.1 hnot).2

theorem policyText_of_done {policy : DnsPolicy} (hsound : dnsPolicy.Sound policy)
    (h : (Json.write defaultLimit (dnsPolicy.script policy).calls).done = true) :
    ∃ text, policyText policy = some text := by
  rw [← dnsPolicy.calls_script hsound, dnsPolicy_write hsound] at h
  simp only [policyText, not_failed_of_done h, Bool.false_eq_true, if_false, Option.some.injEq,
    exists_eq']

theorem appliedDns_write (scope : DnsScope) : appliedDns.write scope.row =
    ([.objectBegin, .key (some (asciis "scope")), .scalar (.string scope.name.1),
      .key (some (asciis "policy"))] : List Call) ++
        (dnsPolicy.write scope.policy ++ [Call.objectEnd]) := by
  simp [appliedDns, Kind.struct, Model.appliedDnsTable, Model.Table.write, Model.strOf,
    Kind.optional, Kind.required, Kind.str, DnsScope.row]

def Kept (scopes : List DnsScope) : Prop := ∀ scope ∈ scopes, appliedDns.Keeps scope.row

section Recorded

variable {scopes : List DnsScope}

theorem Kept.rows (h : Kept scopes) : appliedDns.list.Keeps (scopes.map DnsScope.row) := by
  intro row hrow
  obtain ⟨scope, hscope, rfl⟩ := List.mem_map.1 hrow
  exact h scope hscope

theorem done_of_written (h : Kept scopes) (hok : (Json.write defaultLimit
      (appliedDns.list.write (scopes.map DnsScope.row))).buf.failed ≠ true) :
    (Json.write defaultLimit (appliedDns.list.script (scopes.map DnsScope.row)).calls).done =
      true := by
  refine @done_of_part defaultLimit [] [] _ ?_
  rw [List.nil_append, List.append_nil,
    ← appliedDns.list.calls_script (appliedDns.list.sound_of_keeps h.rows)]
  exact eq_false_of_ne_true fun hbad => hok ((Writer.within_write _ _).hasFailed_iff.1 hbad)

theorem noteDns_eq (h : Kept scopes) : noteDns scopes =
    if (Json.write defaultLimit (appliedDns.list.write (scopes.map DnsScope.row))).buf.failed
    then none
    else some (scopes.map DnsScope.row) := by
  unfold noteDns
  dsimp only
  by_cases hfailed : (Json.write defaultLimit
      (appliedDns.list.write (scopes.map DnsScope.row))).buf.failed = true
  · rw [if_pos hfailed, if_pos hfailed]
  · rw [if_neg hfailed, if_neg hfailed]
    have hsound := appliedDns.list.sound_of_keeps h.rows
    have hcalls := appliedDns.list.calls_script hsound
    have hwithin := Writer.within_write defaultLimit
      (appliedDns.list.write (scopes.map DnsScope.row))
    obtain ⟨hfits, htext⟩ := Writer.text_of_script (done_of_written h hfailed)
    have hlength := hwithin.length_le
    rw [hcalls, htext, Json.cString_eq (Json.render_ne_zero Json.blank_compact _ hfits 0)]
    rw [hcalls, htext] at hlength
    rw [Json.document_render Json.blank_compact hfits (by rw [defaultLimit] at hlength; omega)]
    dsimp only
    by_cases hnone : scopes = []
    · rw [if_pos hnone, hnone]
      rfl
    · rw [if_neg hnone]
      exact (appliedDns.list.read_script hsound).2 h.rows

theorem noteDns_of_room (h : Kept scopes)
    (hfits : Json.Fits Json.maxDepth (appliedDns.list.script (scopes.map DnsScope.row)).value)
    (hroom : (Json.render Json.compact 0
      (appliedDns.list.script (scopes.map DnsScope.row)).value).length ≤ defaultLimit) :
    noteDns scopes = some (scopes.map DnsScope.row) := by
  have hdone := (Writer.done_of_fits hfits hroom).1
  rw [← appliedDns.list.calls_script (appliedDns.list.sound_of_keeps h.rows)] at hdone
  rw [noteDns_eq h, not_failed_of_done hdone]
  rfl

theorem noteDns_none (h : Kept scopes)
    (hno : ¬Json.Fits Json.maxDepth (appliedDns.list.script (scopes.map DnsScope.row)).value) :
    noteDns scopes = none := by
  rw [noteDns_eq h, if_pos]
  by_contra hok
  exact hno (Writer.text_of_script (done_of_written h hok)).1

/-- What is recorded of scopes that are kept. -/
theorem recorded_of_noteDns (h : Kept scopes) {after : List AppliedDns}
    (hnote : noteDns scopes = some after) : after = scopes.map DnsScope.row ∧
      ∀ scope ∈ scopes, ∃ text, policyText scope.policy = some text := by
  rw [noteDns_eq h] at hnote
  split_ifs at hnote with hfailed
  refine ⟨(Option.some.inj hnote).symm, fun scope hscope => ?_⟩
  have hsound : dnsPolicy.Sound scope.policy := dnsPolicy.sound_of_keeps (h scope hscope).2.1
  refine policyText_of_done hsound ?_
  obtain ⟨before, rest, rfl⟩ := List.append_of_mem hscope
  have hwithin := Writer.within_write defaultLimit
    (appliedDns.list.write ((before ++ scope :: rest).map DnsScope.row))
  have hok := eq_false_of_ne_true fun hbad => hfailed (hwithin.hasFailed_iff.1 hbad)
  refine @done_of_part defaultLimit (.arrayBegin :: ((before.map DnsScope.row).flatMap
    appliedDns.write ++ ([.objectBegin, .key (some (asciis "scope")),
      .scalar (.string scope.name.1), .key (some (asciis "policy"))] : List Call)))
    (.objectEnd :: ((rest.map DnsScope.row).flatMap appliedDns.write ++ [Call.arrayEnd])) _ ?_
  rw [← dnsPolicy.calls_script hsound]
  have hcalls : appliedDns.list.write ((before ++ scope :: rest).map DnsScope.row) =
      .arrayBegin :: (((before ++ scope :: rest).map DnsScope.row).flatMap appliedDns.write ++
        [.arrayEnd]) := rfl
  rw [hcalls, List.map_append, List.map_cons, List.flatMap_append, List.flatMap_cons,
    appliedDns_write] at hok
  simpa using hok

theorem policyMatches_self {policy : DnsPolicy} {text : Json.Bytes}
    (h : policyText policy = some text) : policyMatches (some policy) policy = true := by
  simp [policyMatches, h]

theorem dnsFor_row (hnames : (scopes.map DnsScope.name).Nodup) {scope : DnsScope}
    (hscope : scope ∈ scopes) :
    dnsFor (scopes.map DnsScope.row) scope.name = some scope.policy := by
  induction scopes with
  | nil => cases hscope
  | cons first scopes ih =>
    rw [List.map_cons, List.nodup_cons] at hnames
    rw [dnsFor, List.map_cons, List.find?_cons]
    rcases List.mem_cons.1 hscope with rfl | hscope
    · simp [DnsScope.row]
    · have hne : first.row.scope ≠ some scope.name := fun heq =>
        hnames.1 (Option.some.inj heq ▸ List.mem_map_of_mem hscope)
      simp only [hne, decide_false]
      exact ih hnames.2 hscope

theorem departedScopes_rows (scopes : List DnsScope) :
    departedScopes (scopes.map DnsScope.row) scopes = [] := by
  rw [departedScopes, List.filter_eq_nil_iff]
  intro name hname
  obtain ⟨row, hrow, hscope⟩ := List.mem_filterMap.1 hname
  obtain ⟨scope, hmem, rfl⟩ := List.mem_map.1 hrow
  obtain rfl : scope.name = name := Option.some.inj hscope
  simpa using ⟨scope, hmem, rfl⟩

/-- A plan for scopes that are recorded as they are is empty. -/
theorem planDns_rows (hnames : (scopes.map DnsScope.name).Nodup)
    (htext : ∀ scope ∈ scopes, ∃ text, policyText scope.policy = some text)
    (reports : List Report) : (planDns scopes (scopes.map DnsScope.row) reports).1 = [] := by
  have hscopes : scopes.filterMap (planScope (scopes.map DnsScope.row)) = [] := by
    rw [List.filterMap_eq_nil_iff]
    intro scope hscope
    obtain ⟨text, htext⟩ := htext scope hscope
    simp [planScope, dnsFor_row hnames hscope, policyMatches_self htext]
  have hdeparted : planDeparted [] scopes = [] := by
    cases scopes <;> rfl
  simp only [planDns, departedScopes_rows, hscopes, hdeparted, List.append_nil, ite_self]

end Recorded

/-! ## The scopes of a document -/

theorem keeps_address (ip : Ip) :
    address.Keeps (cText (asciis (Address.render ⟨ip, none, nofun⟩))) := by
  have hrender : Address.render ⟨ip, none, nofun⟩ = String.ofList ip.text := by
    simp [Address.render]
  have hplain : ∀ c ∈ ip.text, ascii c ≠ 0 ∧ Char.ofNat (ascii c).toNat = c := by
    intro c hc
    rcases Resolver.mem_ip_text hc with rfl | rfl | ⟨d, hd, rfl⟩
    · decide
    · decide
    · interval_cases d <;> decide
  have hbytes : (cText (asciis (String.ofList ip.text))).1 = ip.text.map ascii := by
    have hasciis : asciis (String.ofList ip.text) = ip.text.map ascii := by
      rw [asciis, String.toList_ofList]
    rw [hasciis]
    refine Json.cString_eq fun c hc => ?_
    obtain ⟨x, hx, rfl⟩ := List.mem_map.1 hc
    exact (hplain x hx).1
  have htext : Model.textOf (cText (asciis (String.ofList ip.text))).1 = String.ofList ip.text := by
    rw [hbytes, Model.textOf, List.map_map]
    have hback : ip.text.map ((fun c => Char.ofNat c.toNat) ∘ ascii) = ip.text.map id :=
      List.map_congr_left fun c hc => (hplain c hc).2
    rw [hback, List.map_id]
  change Model.addressText _ = some _
  rw [Model.addressText, hrender, htext, ← hrender, Address.parse_render]
  rfl

theorem keeps_server {server : Resolver.Server}
    (hport : ∀ port, server.port = some port → 0 ≤ port ∧ port ≤ 65535) :
    dnsServer.Keeps (serverOf server) := by
  refine ⟨⟨fun _ => rfl, ?_⟩, ⟨nofun, ?_⟩, ⟨nofun, fun _ _ => trivial⟩, trivial⟩
  · intro addr haddr
    rw [← Option.some.inj haddr]
    exact keeps_address server.addr
  · intro n hn
    obtain ⟨port, hserver, rfl⟩ := Option.map_eq_some_iff.1 hn
    obtain ⟨hlow, hhigh⟩ := hport port hserver
    change 0 ≤ (Int64.ofInt port).toInt ∧ (Int64.ofInt port).toInt ≤ 65535
    rw [Int64.toInt_ofInt_of_le (by omega) (by omega)]
    exact ⟨hlow, hhigh⟩

theorem keeps_policy {policy : Resolver.Policy} (hports : PortsFit policy) :
    dnsPolicy.Keeps (policyOf policy) := by
  refine ⟨.inr ?_, .inr ?_, .inr fun _ _ => trivial, .inr ?_, .inr fun _ _ => trivial,
    ⟨nofun, nofun⟩, ⟨nofun, ?_⟩, trivial⟩
  · change Model.dnsMode.Keeps ⟨modeNumber policy.mode, none⟩
    cases policy.mode <;> exact ⟨rfl, rfl⟩
  · intro row hrow
    obtain ⟨server, hserver, rfl⟩ := List.mem_map.1 hrow
    exact keeps_server (hports server hserver)
  · intro row hrow
    obtain ⟨domain, -, rfl⟩ := List.mem_map.1 hrow
    exact ⟨⟨fun _ => rfl, fun _ _ => trivial⟩, .inr trivial, trivial⟩
  · intro n hn
    have hone : n = 1 := by
      change (if policy.tls then some 1 else none) = some n at hn
      split_ifs at hn
      exact (Option.some.inj hn).symm
    rw [hone]
    rfl

theorem mem_addServers {have_ more : List Resolver.Server} {server : Resolver.Server}
    (h : server ∈ Resolver.addServers have_ more) : server ∈ have_ ∨ server ∈ more := by
  unfold Resolver.addServers at h
  induction more generalizing have_ with
  | nil => exact .inl h
  | cons first more ih =>
    rw [List.foldl_cons] at h
    rcases ih h with h | h
    · split_ifs at h
      · exact .inl h
      · rcases List.mem_append.1 h with h | h
        · exact .inl h
        · exact .inr (List.mem_singleton.1 h ▸ List.mem_cons_self)
    · exact .inr (List.mem_cons_of_mem _ h)

theorem portsFit_buildScope {host : Resolver.Mode} {base : Option Resolver.Policy}
    (report : Option Report) (h : ∀ policy, base = some policy → PortsFit policy) :
    PortsFit (Resolver.buildScope host base report) := by
  have hbase : PortsFit (base.getD {}) := by
    cases base with
    | none => exact nofun
    | some policy => exact h policy rfl
  have hmode : PortsFit (if (base.getD {}).mode = .none then { base.getD {} with mode := host }
      else base.getD {}) := by
    split_ifs
    · exact hbase
    · exact hbase
  unfold Resolver.buildScope
  cases report with
  | none => exact hmode
  | some report =>
    intro server hserver port hport
    rcases mem_addServers hserver with hserver | hserver
    · exact hmode server hserver port hport
    · obtain ⟨text, -, hread⟩ := List.mem_filterMap.1 hserver
      obtain ⟨ip, -, rfl⟩ := Option.map_eq_some_iff.1 hread
      cases hport

section Scopes

variable {d : Resolver.Document}

theorem scopeOf_eq_some {reports : List Report} {i : Resolver.Interface} {scope : Resolver.Scope}
    (h : d.scopeOf reports i = some scope)
    (hports : ∀ policy, i.dns = some policy → PortsFit policy) :
    scope.name = i.name ∧ PortsFit scope.policy := by
  unfold Resolver.Document.scopeOf at h
  dsimp only at h
  generalize Option.filter _ _ = offers at h
  by_cases hmanaged : (!i.managed) = true
  · rw [if_pos hmanaged] at h
    cases h
  · rw [if_neg hmanaged] at h
    cases hdns : i.dns with
    | none =>
      rw [hdns] at h
      dsimp only at h
      split_ifs at h
      obtain rfl := Option.some.inj h
      exact ⟨rfl, portsFit_buildScope _ nofun⟩
    | some policy =>
      rw [hdns] at h
      dsimp only at h
      split_ifs at h
      obtain rfl := Option.some.inj h
      exact ⟨rfl, portsFit_buildScope _ fun p hp => hports p (hdns ▸ hp)⟩

/-- The scopes of a checked document are kept. -/
theorem kept_dnsScopes (hd : Checked d) (reports : List Report) : Kept (dnsScopes d reports) := by
  intro row hrow
  obtain ⟨scope, hscope, rfl⟩ := List.mem_map.1 hrow
  have hports : PortsFit scope.policy := by
    rcases List.mem_append.1 hscope with hscope | hscope
    · unfold Resolver.Document.global at hscope
      split_ifs at hscope
      · cases hscope
      · rw [List.mem_singleton.1 hscope]
        exact hd.dns
    · obtain ⟨i, hi, hscope⟩ := List.mem_filterMap.1 hscope
      exact (scopeOf_eq_some hscope (hd.interfaces i hi)).2
  exact ⟨⟨fun _ => rfl, fun _ _ => trivial⟩, keeps_policy hports, trivial⟩

theorem sublist_filterMap {α β : Type} {f : α → Option β} {g : α → β} {l : List α}
    (h : ∀ a ∈ l, ∀ b, f a = some b → b = g a) : (l.filterMap f).Sublist (l.map g) := by
  induction l with
  | nil => exact .slnil
  | cons a l ih =>
    have hrest := ih fun a' ha' => h a' (List.mem_cons_of_mem _ ha')
    rw [List.filterMap_cons, List.map_cons]
    cases hf : f a with
    | none => exact hrest.cons _
    | some b => exact h a List.mem_cons_self b hf ▸ hrest.cons_cons _

/-- The scopes of a document have different names, where none is called as the global one. -/
theorem nodup_dnsScopes (hd : Checked d) {reports : List Report}
    (hglobal : d.global ≠ [] → ∀ i ∈ d.interfaces, d.scopeOf reports i ≠ none →
      stringOf i.name ≠ globalName) : ((dnsScopes d reports).map DnsScope.name).Nodup := by
  have hname {i : Resolver.Interface} (hi : i ∈ d.interfaces) {scope : Resolver.Scope}
      (h : d.scopeOf reports i = some scope) : scope.name = i.name :=
    (scopeOf_eq_some h (hd.interfaces i hi)).1
  have hscoped : ((d.scoped reports).map fun scope => stringOf scope.name).Nodup := by
    unfold Resolver.Document.scoped
    refine List.Nodup.sublist ?_ hd.names
    rw [List.map_filterMap]
    exact sublist_filterMap fun i hi name h => by
      obtain ⟨scope, hscope, rfl⟩ := Option.map_eq_some_iff.1 h
      rw [hname hi hscope]
  unfold dnsScopes Resolver.scopesOf
  rw [List.map_map, List.map_append]
  by_cases hnone : d.global = []
  · rw [hnone]
    exact hscoped
  · have hone : d.global = [⟨Resolver.globalScope, d.dns⟩] := by
      unfold Resolver.Document.global at hnone ⊢
      split_ifs at hnone ⊢
      · exact absurd rfl hnone
      · rfl
    rw [hone]
    refine List.nodup_cons.2 ⟨fun hmem => ?_, hscoped⟩
    obtain ⟨scope, hscope, heq⟩ := List.mem_map.1 hmem
    obtain ⟨i, hi, hscope⟩ := List.mem_filterMap.1 hscope
    refine hglobal hnone i hi (by simp [hscope]) ?_
    rw [← hname hi hscope]
    exact heq

/-- A delivery that is carried out and recorded leaves nothing to plan over the same reports. The
record holds the scopes there are and nothing else, and the inverse leaves it as it is. -/
theorem delivery_settles (hd : Checked d) (reports : List Report)
    (hglobal : d.global ≠ [] → ∀ i ∈ d.interfaces, d.scopeOf reports i ≠ none →
      stringOf i.name ≠ globalName) (recorded after : List AppliedDns)
        (deliver : List DnsScope → Bool) (action : DnsAction)
    (haction : action ∈ (planDns (dnsScopes d reports) recorded reports).1)
    (hafter : carryOut deliver (dnsScopes d reports) action.scope = some after) :
    (planDns (dnsScopes d reports) after reports).1 = [] ∧
      after = (dnsScopes d reports).map DnsScope.row ∧
      ∀ inverse, action.inverse = some inverse →
        carryOut deliver (dnsScopes d reports) inverse = some after := by
  have hscopes : dnsScopes d reports ≠ [] := by
    intro hnone
    rw [hnone] at haction
    simp [planDns, planDeparted] at haction
  have hnote : noteDns (dnsScopes d reports) = some after := by
    unfold carryOut at hafter
    split_ifs at hafter
    exact hafter
  obtain ⟨hrows, htext⟩ := recorded_of_noteDns (kept_dnsScopes hd reports) hnote
  refine ⟨?_, hrows, fun inverse _ => ?_⟩
  · rw [hrows]
    exact planDns_rows (nodup_dnsScopes hd hglobal) htext reports
  · -- the executor delivers its own scopes, whichever one the op names
    rw [← hafter, carryOut, carryOut, delivered, delivered, if_pos hscopes, if_pos hscopes]

end Scopes

def oneServer (octets : Inet.Groups 4 256) : Resolver.Policy :=
  { mode := .writeResolvConf, servers := [⟨.v4 octets, none, []⟩] }

def nines : Inet.Groups 4 256 := ⟨[9, 9, 9, 9], rfl, by decide⟩

def ones : Inet.Groups 4 256 := ⟨[1, 1, 1, 1], rfl, by decide⟩

def before : Resolver.Document := ⟨oneServer nines, [], List.nodup_nil⟩

def changed : Resolver.Document := ⟨oneServer ones, [], List.nodup_nil⟩

def recordedBefore : List AppliedDns := (dnsScopes before []).map DnsScope.row

theorem portsFit_oneServer (octets : Inet.Groups 4 256) : PortsFit (oneServer octets) := by
  intro server hserver port hport
  rw [List.mem_singleton.1 hserver] at hport
  cases hport

theorem checked_changed : Checked changed := ⟨List.nodup_nil, portsFit_oneServer _, nofun⟩

theorem noteDns_changed : noteDns (dnsScopes changed []) =
    some ((dnsScopes changed []).map DnsScope.row) := by
  exact noteDns_of_room (kept_dnsScopes checked_changed []) (by decide +kernel) (by decide +kernel)

/-! ### A tunnel that goes away -/

theorem usable_of_all {name : Text} (h : (name.all fun c => !Compile.isSpace c) = true) :
    ∀ c ∈ name, Compile.isSpace c = false := fun c hc => by
  simpa using List.all_eq_true.1 h c hc

def wired : Resolver.Interface :=
  { name := "eth0".toList
    usable := usable_of_all rfl
    reported := true
    dns := some { mode := .resolved, search := ["home.arpa".toList] } }

def tunnel : Resolver.Interface :=
  { name := "wg0".toList
    usable := usable_of_all rfl
    dns :=
      some { oneServer nines with mode := .resolved, domains := [⟨"corp.example".toList, true⟩] } }

/-- The wired network, and the tunnel or none. -/
def house (interfaces : List Resolver.Interface)
    (distinct : (interfaces.map Resolver.Interface.name).Nodup) : Resolver.Document :=
  ⟨{ oneServer ones with mode := .resolved }, interfaces, distinct⟩

def withTunnel : Resolver.Document := house [wired, tunnel] (by decide)

def withoutTunnel : Resolver.Document := house [wired] (List.nodup_singleton _)

def leased : Report := ⟨"eth0".toList, ["192.168.1.1".toList], ["lan".toList]⟩

def recordedWithTunnel : List AppliedDns := (dnsScopes withTunnel [leased]).map DnsScope.row

theorem checked_withoutTunnel : Checked withoutTunnel := by
  refine ⟨List.nodup_singleton _, portsFit_oneServer _, fun i hi policy hpolicy => ?_⟩
  obtain rfl := List.mem_singleton.1 hi
  obtain rfl := Option.some.inj hpolicy
  exact fun server hserver => (List.not_mem_nil hserver).elim

/-- Without the tunnel the scopes are delivered again, once, and nothing of it is left. -/
theorem tunnel_settles :
    (planDns (dnsScopes withoutTunnel [leased]) recordedWithTunnel [leased]).1 ≠ [] ∧
      (planDns (dnsScopes withoutTunnel [leased])
        ((dnsScopes withoutTunnel [leased]).map DnsScope.row) [leased]).1 = [] := by
  have hplanned :
      (planDns (dnsScopes withoutTunnel [leased]) recordedWithTunnel [leased]).1 ≠ [] := by
    decide +kernel
  have hnote : noteDns (dnsScopes withoutTunnel [leased]) =
      some ((dnsScopes withoutTunnel [leased]).map DnsScope.row) :=
    noteDns_of_room (kept_dnsScopes checked_withoutTunnel [leased]) (by decide +kernel)
      (by decide +kernel)
  have hcarried : ∀ op, carryOut (fun _ => true) (dnsScopes withoutTunnel [leased]) op =
      some ((dnsScopes withoutTunnel [leased]).map DnsScope.row) := fun op => by
    rw [carryOut, if_pos rfl, hnote]
  refine ⟨hplanned, (delivery_settles checked_withoutTunnel [leased] (fun _ i hi _ => ?_)
    recordedWithTunnel _ (fun _ => true) _ (List.head_mem hplanned) (hcarried _)).1⟩
  obtain rfl := List.mem_singleton.1 hi
  decide +kernel

/-! ## What does not settle -/

/-- A machine with an interface by the name of the global scope. -/
def namedGlobals : Resolver.Document :=
  ⟨oneServer nines,
    [{ name := Resolver.globalScope, usable := usable_of_all rfl, dns := some (oneServer ones) }],
    List.nodup_singleton _⟩

def takesReports : Resolver.Document :=
  ⟨oneServer nines, [{ name := "eth0".toList, usable := usable_of_all rfl, dns := some {} }],
    List.nodup_singleton _⟩

def notUtf8 : Report := ⟨"eth0".toList, [], [[Char.ofNat 0xff]]⟩

theorem checked_namedGlobals : Checked namedGlobals := by
  refine ⟨List.nodup_singleton _, portsFit_oneServer _, fun i hi policy hpolicy => ?_⟩
  obtain rfl := List.mem_singleton.1 hi
  obtain rfl := Option.some.inj hpolicy
  exact portsFit_oneServer _

theorem checked_takesReports : Checked takesReports := by
  refine ⟨List.nodup_singleton _, portsFit_oneServer _, fun i hi policy hpolicy => ?_⟩
  obtain rfl := List.mem_singleton.1 hi
  obtain rfl := Option.some.inj hpolicy
  exact fun server hserver => (List.not_mem_nil hserver).elim

/-- The inverse of a change records the change again; two scopes of one name are delivered again and
again; and what cannot be recorded is planned whatever was delivered. -/
theorem dns_not_settled :
    (∃ action ∈ (planDns (dnsScopes changed []) recordedBefore []).1,
      action.inverse.map (carryOut (fun _ => true) (dnsScopes changed [])) =
        some (some ((dnsScopes changed []).map DnsScope.row)) ∧
      (dnsScopes changed []).map DnsScope.row ≠ recordedBefore) ∧
    (noteDns (dnsScopes namedGlobals []) = some ((dnsScopes namedGlobals []).map DnsScope.row) ∧
      (planDns (dnsScopes namedGlobals [])
        ((dnsScopes namedGlobals []).map DnsScope.row) []).1 ≠ []) ∧
    noteDns (dnsScopes takesReports [notUtf8]) = none ∧
      (planDns (dnsScopes takesReports [notUtf8]) [] [notUtf8]).1 ≠ [] := by
  have hinverse : (planDns (dnsScopes changed []) recordedBefore []).1.map DnsAction.inverse =
      [(dnsScopes before []).head?] := by
    decide +kernel
  refine ⟨?_, ?_, ?_⟩
  · obtain ⟨action, hplan, hprevious⟩ := List.map_eq_singleton_iff.1 hinverse
    refine ⟨action, hplan ▸ List.mem_singleton_self action, ?_, by decide +kernel⟩
    rw [hprevious, Option.map_eq_some_iff]
    exact ⟨_, rfl, by rw [carryOut, if_pos rfl, noteDns_changed]⟩
  · exact ⟨noteDns_of_room (kept_dnsScopes checked_namedGlobals []) (by decide +kernel)
      (by decide +kernel), by decide +kernel⟩
  · exact ⟨noteDns_none (kept_dnsScopes checked_takesReports _) (by decide +kernel),
      by decide +kernel⟩

end Netcfgd.DnsPlan
