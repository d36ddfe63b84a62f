import Netcfgd.NftTransaction

/-!
# A routing rule on the wire and back

`ncfg_ops_add_rule` and `ncfg_ops_del_rule` of `src/sys/ops_route.c`, and `src/sys/rule.c`, which
reads a rule that the kernel reports and makes a spec of it.

A rule that is sent reads back as itself, with the protocol of `netcfgd` where it named none and
with no prefix length but beside a selector (`Rule.settled`). That is so of every rule but one that
suppresses prefixes shorter than `UINT32_MAX` (`survives_iff`) : the compiler admits the number, the
request carries it, and the reader takes it for a rule that suppresses none.
-/

namespace Netcfgd.RuleWire

open Nftables (Bytes Endian hostOrder length_hostOrder)
open Netlink (headerLength)
open Json (Buf)
open Wire

/-! ## What is sent -/

/-- `ncfg_wire_ip_t`. The family says how many of the bytes mean anything. -/
structure WireIp where
  family : ℤ
  bytes : Bytes
  sixteen : bytes.length = 16
  deriving DecidableEq

def WireIp.absent : WireIp := ⟨0, List.replicate 16 0, rfl⟩

/-- `AF_INET` and `AF_INET6`. -/
def afInet : ℤ := 2

def afInet6 : ℤ := 10

/-- `ncfg_ops_ip_present`. -/
def ipPresent (ip : WireIp) : Bool := ip.family = afInet ∨ ip.family = afInet6

def WireIp.sent (ip : WireIp) : Bytes := ip.bytes.take (if ip.family = afInet then 4 else 16)

/-- `NCFG_RULE_NAME_MAX`. -/
def ruleNameMax : ℕ := 16

/-- The name of an interface, which the kernel has room for. -/
structure IfName where
  text : Bytes
  short : text.length < ruleNameMax
  utf8 : Utf8.isUtf8 text = true
  noNul : ∀ b ∈ text, b ≠ 0
  deriving DecidableEq

/-- `ncfg_ops_rule_t`. -/
structure Rule where
  family : UInt8
  priority : UInt32
  table : UInt32
  action : UInt8
  fromIp : WireIp
  fromLen : UInt8
  toIp : WireIp
  toLen : UInt8
  iif : Option IfName
  oif : Option IfName
  fwmark : Option ℤ
  fwmask : Option ℤ
  suppressPrefixlength : Option ℤ
  l3mdev : Bool
  invert : Bool
  protocol : Option ℤ
  deriving DecidableEq

/-- `ncfg_ops_narrow`. -/
def narrow (value ceiling : ℤ) (what : String) : Except String ℕ :=
  if value < 0 ∨ ceiling < value then
    .error s!"{what} is 0 to {ceiling}, and this one is {value}"
  else .ok value.toNat

/-- `NCFG_WIRE_RTPROT_NETCFGD`. -/
def rtprotNetcfgd : ℕ := 110

/-- `FIB_RULE_INVERT`. -/
def fibRuleInvert : ℕ := 2

/-- `UINT32_MAX`. -/
def uint32Max : ℕ := 0xffffffff

/-- `FRA_DST` and the others, as the kernel numbers them. -/
def fraDst : ℕ := 1
def fraSrc : ℕ := 2
def fraIifname : ℕ := 3
def fraPriority : ℕ := 6
def fraFwmark : ℕ := 10
def fraSuppressPrefixlen : ℕ := 14
def fraTable : ℕ := 15
def fraFwmask : ℕ := 16
def fraOifname : ℕ := 17
def fraL3mdev : ℕ := 19
def fraProtocol : ℕ := 21

section Sent

variable (e : Endian)

/-- A prefix length, which means nothing but beside its selector. -/
def lengthBeside (ip : WireIp) (length : UInt8) : UInt8 := if ipPresent ip then length else 0

/-- `rule_header`. -/
def ruleHeader (rule : Rule) (tableByte : UInt8) (body : Buf) : Buf :=
  (body.add [rule.family, lengthBeside rule.toIp rule.toLen, lengthBeside rule.fromIp rule.fromLen,
    0, tableByte, 0, 0, rule.action]).add
      (hostOrder e 4 (if rule.invert then fibRuleInvert else 0))

/-- `ncfg_wire_attr_put_ip`. -/
def attrPutIp (kind : ℕ) (ip : WireIp) (out : Buf) : Buf :=
  if out.failed then out
  else if ipPresent ip then attrPut e kind ip.sent out
  else giveUp out

def putSelector (kind : ℕ) (ip : WireIp) (attrs : Buf) : Buf :=
  if ipPresent ip then attrPutIp e kind ip attrs else attrs

def putName (kind : ℕ) (name : Option IfName) (attrs : Buf) : Buf :=
  match name with
  | none => attrs
  | some name => attrPut e kind (name.text ++ [0]) attrs

def putNarrow (kind : ℕ) (value : Option ℤ) (what : String) (attrs : Buf) : Except String Buf :=
  match value with
  | none => .ok attrs
  | some value => do
    let number ← narrow value uint32Max what
    .ok (attrPut e kind (hostOrder e 4 number) attrs)

def protocolOf (rule : Rule) : Except String ℕ :=
  match rule.protocol with
  | none => .ok rtprotNetcfgd
  | some protocol => narrow protocol 255 "a rule's protocol"

/-- `rule_request`. -/
def ruleRequest (out : Buf) (kind flags : ℕ) (seq : UInt32) (rule : Rule) : Except String Buf := do
  let protocol ← protocolOf rule
  -- a table that takes more than the header's byte goes in an attribute and leaves it unspecified
  let body := ruleHeader e rule (if rule.table ≤ 255 then rule.table.toUInt8 else 0) newBuf
  let attrs := attrPut e fraPriority (hostOrder e 4 rule.priority.toNat) newBuf
  let attrs :=
    if rule.table ≠ 0 then attrPut e fraTable (hostOrder e 4 rule.table.toNat) attrs else attrs
  let attrs := putSelector e fraSrc rule.fromIp attrs
  let attrs := putSelector e fraDst rule.toIp attrs
  let attrs := putName e fraIifname rule.iif attrs
  let attrs := putName e fraOifname rule.oif attrs
  let attrs ← putNarrow e fraFwmark rule.fwmark "a firewall mark" attrs
  let attrs ← putNarrow e fraFwmask rule.fwmask "a firewall mark's mask" attrs
  let attrs ← putNarrow e fraSuppressPrefixlen rule.suppressPrefixlength
    "a suppressed prefix length" attrs
  let attrs := if rule.l3mdev then attrPut e fraL3mdev [1] attrs else attrs
  let attrs := attrPut e fraProtocol [UInt8.ofNat protocol] attrs
  buildRequest e kind flags seq.toNat (some body) (some attrs) out

/-- `NCFG_OPS_ACK_FLAGS`. -/
def ackFlags : ℕ := 5

/-- `ncfg_ops_add_rule`, with `NLM_F_CREATE` and `NLM_F_EXCL`. -/
def addRule (out : Buf) (seq : UInt32) (rule : Rule) : Except String Buf :=
  ruleRequest e out 32 (ackFlags ||| 0x400 ||| 0x200) seq rule

/-- `ncfg_ops_del_rule`. -/
def delRule (out : Buf) (seq : UInt32) (rule : Rule) : Except String Buf :=
  ruleRequest e out 33 ackFlags seq rule

end Sent

/-! ## What is read -/

/-- `ncfg_rule_record_t`. -/
structure RuleRecord where
  family : UInt8
  priority : UInt32
  table : UInt32
  action : UInt8
  fromIp : WireIp
  fromLen : UInt8
  toIp : WireIp
  toLen : UInt8
  iif : Option IfName
  oif : Option IfName
  fwmark : Option UInt32
  fwmask : Option UInt32
  suppressPrefixlength : Option UInt32
  l3mdev : Bool
  invert : Bool
  protocol : UInt8
  deriving DecidableEq

section Read

variable (e : Endian)

/-- `area_u8` and its like : what an attribute of a kind reads as. One that is not there, or that is
of the wrong width, is absent. -/
def areaRead {α : Type} (read : Attr → Option α) (kind : ℕ) (area : Bytes) :
    Except String (Option α) :=
  match attrsFind e kind area with
  | .ok attr => .ok (read attr)
  | .error none => .ok none
  | .error (some said) => .error said

/-- `ncfg_wire_attr_u8`. -/
def attrU8 (attr : Attr) : Option UInt8 := attr.value.head?

/-- `ncfg_wire_attr_u32`. -/
def attrU32 (attr : Attr) : Option UInt32 :=
  if attr.value.length < 4 then none else some (UInt32.ofNat (native e (attr.value.take 4)))

/-- `ncfg_wire_attr_ip`. The length says which family it is. -/
def attrIp (attr : Attr) : Option WireIp :=
  if h : attr.value.length = 4 then
    some ⟨afInet, attr.value ++ List.replicate 12 0, by rw [List.length_append, h]; rfl⟩
  else if h : attr.value.length = 16 then some ⟨afInet6, attr.value, h⟩
  else none

/-- `ncfg_wire_attr_string`, into room for an interface's name. -/
def attrName (attr : Attr) : Option IfName :=
  match h : Utf8.attrString ruleNameMax attr.value with
  | .error _ => none
  | .ok text =>
    some ⟨text, (Utf8.of_attrString h).1, (Utf8.of_attrString h).2.1, (Utf8.of_attrString h).2.2⟩

/-- `NCFG_RULE_HDR_LEN`. -/
def ruleHeaderLength : ℕ := 12

/-- `ncfg_dump_rule`. -/
def dumpRule (payload : Bytes) : Except String RuleRecord :=
  if payload.length < ruleHeaderLength then
    .error (s!"a rule message is at least {ruleHeaderLength} bytes and this one is " ++
      s!"{payload.length}")
  else do
    let area := payload.drop ruleHeaderLength
    let priority ← areaRead e (attrU32 e) fraPriority area
    let table ← areaRead e (attrU32 e) fraTable area
    let fromIp ← areaRead e attrIp fraSrc area
    let toIp ← areaRead e attrIp fraDst area
    let iif ← areaRead e attrName fraIifname area
    let oif ← areaRead e attrName fraOifname area
    let fwmark ← areaRead e (attrU32 e) fraFwmark area
    let fwmask ← areaRead e (attrU32 e) fraFwmask area
    let suppressed ← areaRead e (attrU32 e) fraSuppressPrefixlen area
    let l3mdev ← areaRead e attrU8 fraL3mdev area
    let protocol ← areaRead e attrU8 fraProtocol area
    .ok {
      family := payload.getD 0 0
      priority := priority.getD 0
      table := table.getD (payload.getD 4 0).toUInt32
      action := payload.getD 7 0
      fromIp := fromIp.getD .absent
      fromLen := if fromIp.isSome then payload.getD 2 0 else 0
      toIp := toIp.getD .absent
      toLen := if toIp.isSome then payload.getD 1 0 else 0
      iif := iif
      oif := oif
      fwmark := fwmark
      fwmask := fwmask
      -- the kernel reports the suppressor of a rule that has none as all ones
      suppressPrefixlength := if suppressed = some 0xffffffff then none else suppressed
      l3mdev := l3mdev = some 1
      invert := (native e ((payload.drop 8).take 4)).testBit 1
      protocol := protocol.getD 0
    }

/-- `ncfg_rule_record_spec`. -/
def ruleRecordSpec (record : RuleRecord) : Rule where
  family := record.family
  priority := record.priority
  table := record.table
  action := record.action
  fromIp := record.fromIp
  fromLen := record.fromLen
  toIp := record.toIp
  toLen := record.toLen
  iif := record.iif
  oif := record.oif
  fwmark := record.fwmark.map fun n => n.toNat
  fwmask := record.fwmask.map fun n => n.toNat
  suppressPrefixlength := record.suppressPrefixlength.map fun n => n.toNat
  l3mdev := record.l3mdev
  invert := record.invert
  protocol := some record.protocol.toNat

end Read

/-! ## Attributes of which there is at most one of a kind -/

def slotAttr (slot : ℕ × Option Bytes) : Option Attr := slot.2.map (Attr.mk slot.1)

def putSlot (e : Endian) (out : Buf) (slot : ℕ × Option Bytes) : Buf :=
  match slot.2 with
  | none => out
  | some value => attrPut e slot.1 value out

theorem holds_slots {e : Endian} : ∀ {slots : List (ℕ × Option Bytes)} {out : Buf}
    {attrs : List Attr}, (∀ slot ∈ slots, slot.1 < 0x4000) → Holds e out attrs →
      Holds e (slots.foldl (putSlot e) out) (attrs ++ slots.filterMap slotAttr)
  | [], _, _, _, h => by simpa using h
  | (kind, none) :: slots, out, attrs, hkinds, h =>
    @holds_slots _ slots _ _ (fun slot hslot => hkinds slot (List.mem_cons_of_mem _ hslot)) h
  | (kind, some value) :: slots, out, attrs, hkinds, h => by
    have hkind : kind < 2 ^ 16 :=
      (hkinds (kind, some value) List.mem_cons_self).trans (by decide)
    have hlater := @holds_slots _ slots _ _
      (fun slot hslot => hkinds slot (List.mem_cons_of_mem _ hslot)) (h.put hkind value)
    rwa [List.append_assoc] at hlater

theorem find_slot {slots : List (ℕ × Option Bytes)} (hkinds : ∀ slot ∈ slots, slot.1 < 0x4000)
    (hnodup : (slots.map Prod.fst).Nodup) {slot : ℕ × Option Bytes} (hslot : slot ∈ slots) :
    (slots.filterMap slotAttr).find? (fun a => a.kind % 0x4000 = slot.1) = slotAttr slot := by
  have hkept : ∀ a ∈ slots.filterMap slotAttr, a.kind % 0x4000 = slot.1 →
      slotAttr slot = some a := by
    intro a ha hkind
    obtain ⟨other, hother, hattr⟩ := List.mem_filterMap.1 ha
    obtain ⟨value, -, rfl⟩ := Option.map_eq_some_iff.1 hattr
    rw [Nat.mod_eq_of_lt (hkinds other hother)] at hkind
    rw [← List.inj_on_of_nodup_map hnodup hother hslot hkind]
    exact hattr
  rcases hfind : (slots.filterMap slotAttr).find? (fun a => a.kind % 0x4000 = slot.1) with _ | a
  · rw [hfind]
    rcases hattr : slotAttr slot with _ | a
    · rfl
    · have hnone := List.find?_eq_none.1 hfind a (List.mem_filterMap.2 ⟨slot, hslot, hattr⟩)
      obtain ⟨value, -, rfl⟩ := Option.map_eq_some_iff.1 hattr
      exact absurd (decide_eq_true (Nat.mod_eq_of_lt (hkinds slot hslot))) hnone
  · have hkind : a.kind % 0x4000 = slot.1 := by simpa using List.find?_some hfind
    rw [hfind, hkept a (List.mem_of_find?_eq_some hfind) hkind]

theorem areaRead_slot {e : Endian} {α : Type} (read : Attr → Option α)
    {slots : List (ℕ × Option Bytes)} (hkinds : ∀ slot ∈ slots, slot.1 < 0x4000)
    (hnodup : (slots.map Prod.fst).Nodup) (hfits : ∀ a ∈ slots.filterMap slotAttr, a.Fits)
    {kind : ℕ} {value : Option Bytes} (hslot : (kind, value) ∈ slots) :
    areaRead e read kind (areaBytes e (slots.filterMap slotAttr)) =
      .ok (value.bind fun value => read ⟨kind, value⟩) := by
  have hfind := find_slot hkinds hnodup hslot
  rw [areaRead, attrsFind_areaBytes e kind hfits]
  dsimp only at hfind ⊢
  rw [hfind]
  cases value with
  | none => rfl
  | some value =>
    show Except.ok (read ⟨kind % 0x4000, value⟩) = Except.ok (read ⟨kind, value⟩)
    rw [Nat.mod_eq_of_lt (hkinds _ hslot)]

/-! ## What a rule is sent with -/

section Slots

variable (e : Endian) (rule : Rule)

def selectorBytes (ip : WireIp) : Option Bytes := if ipPresent ip then some ip.sent else none

def numberBytes (value : ℤ) : Bytes := hostOrder e 4 value.toNat

def Rule.slots : List (ℕ × Option Bytes) :=
  [(fraPriority, some (hostOrder e 4 rule.priority.toNat)),
    (fraTable, if rule.table ≠ 0 then some (hostOrder e 4 rule.table.toNat) else none),
    (fraSrc, selectorBytes rule.fromIp),
    (fraDst, selectorBytes rule.toIp),
    (fraIifname, rule.iif.map fun name => name.text ++ [0]),
    (fraOifname, rule.oif.map fun name => name.text ++ [0]),
    (fraFwmark, rule.fwmark.map (numberBytes e)),
    (fraFwmask, rule.fwmask.map (numberBytes e)),
    (fraSuppressPrefixlen, rule.suppressPrefixlength.map (numberBytes e)),
    (fraL3mdev, if rule.l3mdev then some [1] else none),
    (fraProtocol, some [UInt8.ofNat (rule.protocol.getD rtprotNetcfgd).toNat])]

def Rule.attrs : Buf := (rule.slots e).foldl (putSlot e) newBuf

/-- The byte of the header that says which table, where a byte is enough. -/
def Rule.tableByte : UInt8 := if rule.table ≤ 255 then rule.table.toUInt8 else 0

def Rule.header : Bytes :=
  [rule.family, lengthBeside rule.toIp rule.toLen, lengthBeside rule.fromIp rule.fromLen, 0,
    rule.tableByte, 0, 0, rule.action] ++ hostOrder e 4 (if rule.invert then fibRuleInvert else 0)

def InRange (value : Option ℤ) (ceiling : ℕ) : Prop := ∀ n ∈ value, 0 ≤ n ∧ n ≤ ceiling

/-- The numbers of a rule are such as it can be sent with. -/
structure Rule.Narrow : Prop where
  protocol : InRange rule.protocol 255
  fwmark : InRange rule.fwmark uint32Max
  fwmask : InRange rule.fwmask uint32Max
  suppressPrefixlength : InRange rule.suppressPrefixlength uint32Max

variable {e rule}

variable {n kind : ℕ}

theorem narrow_ok {value : ℤ} {ceiling : ℕ} {what : String} :
    narrow value ceiling what = .ok n ↔ (0 ≤ value ∧ value ≤ ceiling) ∧ n = value.toNat := by
  unfold narrow
  split_ifs with h
  · simp only [false_iff]
    omega
  · simp only [Except.ok.injEq, eq_comm (a := value.toNat)]
    exact ⟨fun hn => ⟨by omega, hn⟩, fun hn => hn.2⟩

theorem putNarrow_ok {value : Option ℤ} {what : String} {out out' : Buf} :
    putNarrow e kind value what out = .ok out' ↔
      InRange value uint32Max ∧ out' = putSlot e out (kind, value.map (numberBytes e)) := by
  cases value with
  | none => simp [putNarrow, InRange, putSlot, eq_comm]
  | some value =>
    rw [putNarrow, bind_eq_ok]
    constructor
    · rintro ⟨n, hn, hout⟩
      obtain ⟨hrange, rfl⟩ := narrow_ok.1 hn
      exact ⟨by simpa [InRange] using hrange, (Except.ok.inj hout).symm⟩
    · rintro ⟨hrange, rfl⟩
      exact ⟨value.toNat, narrow_ok.2 ⟨hrange value rfl, rfl⟩, rfl⟩

theorem protocolOf_ok : protocolOf rule = .ok n ↔
    InRange rule.protocol 255 ∧ n = (rule.protocol.getD rtprotNetcfgd).toNat := by
  unfold protocolOf
  cases rule.protocol with
  | none => simp [InRange, eq_comm]
  | some value =>
    show narrow value (255 : ℕ) _ = _ ↔ _
    rw [narrow_ok]
    simp [InRange]

theorem putSelector_slot (kind : ℕ) (ip : WireIp) (out : Buf) : putSelector e kind ip out =
    putSlot e out (kind, selectorBytes ip) := by
  unfold putSelector putSlot attrPutIp selectorBytes
  split_ifs with hip hfailed
  · show out = attrPut e kind ip.sent out
    rw [attrPut, if_pos hfailed]
  · rfl
  · rfl

theorem putName_slot (kind : ℕ) (name : Option IfName) (out : Buf) : putName e kind name out =
    putSlot e out (kind, name.map fun name => name.text ++ [0]) := by
  cases name <;> rfl

theorem put_where (c : Prop) [Decidable c] (kind : ℕ) (value : Bytes) (out : Buf) :
    (if c then attrPut e kind value out else out) =
      putSlot e out (kind, if c then some value else none) := by
  split_ifs <;> rfl

theorem ruleRequest_ok {out built : Buf} {flags : ℕ} {seq : UInt32} :
    ruleRequest e out kind flags seq rule = .ok built ↔ rule.Narrow ∧
      buildRequest e kind flags seq.toNat (some (ruleHeader e rule rule.tableByte newBuf))
        (some (rule.attrs e)) out = .ok built := by
  simp only [ruleRequest, bind_eq_ok, protocolOf_ok, putNarrow_ok, putSelector_slot, putName_slot,
    put_where]
  constructor
  · rintro ⟨_, ⟨hprotocol, rfl⟩, _, ⟨hmark, rfl⟩, _, ⟨hmask, rfl⟩, _, ⟨hsuppress, rfl⟩, hbuilt⟩
    exact ⟨⟨hprotocol, hmark, hmask, hsuppress⟩, hbuilt⟩
  · rintro ⟨hnarrow, hbuilt⟩
    exact ⟨_, ⟨hnarrow.protocol, rfl⟩, _, ⟨hnarrow.fwmark, rfl⟩, _, ⟨hnarrow.fwmask, rfl⟩, _,
      ⟨hnarrow.suppressPrefixlength, rfl⟩, hbuilt⟩

theorem kinds_small : ∀ slot ∈ rule.slots e, slot.1 < 0x4000 := by
  have hkinds : ∀ kind ∈ (rule.slots e).map Prod.fst, kind < 0x4000 :=
    show ∀ kind ∈ [6, 15, 2, 1, 3, 17, 10, 16, 14, 19, 21], kind < 0x4000 by decide
  exact fun slot hslot => hkinds _ (List.mem_map_of_mem hslot)

theorem kinds_nodup : ((rule.slots e).map Prod.fst).Nodup :=
  show [6, 15, 2, 1, 3, 17, 10, 16, 14, 19, 21].Nodup by decide

theorem header_ok : (ruleHeader e rule rule.tableByte newBuf).failed = false ∧
    (ruleHeader e rule rule.tableByte newBuf).bytes = rule.header e := by
  have hroom : ∀ {out : Buf} {bytes : Bytes}, out.failed = false →
      out.bytes.length + bytes.length ≤ out.limit →
        (out.add bytes).failed = false ∧ (out.add bytes).bytes = out.bytes ++ bytes ∧
          (out.add bytes).limit = out.limit := by
    intro out bytes hok hlimit
    unfold Buf.add
    split_ifs with hnothing hfull
    · rw [hok] at hnothing
      simp_all
    · omega
    · exact ⟨hok, rfl, rfl⟩
  obtain ⟨hfailed, hbytes, hlimit⟩ := @hroom newBuf [rule.family,
    lengthBeside rule.toIp rule.toLen, lengthBeside rule.fromIp rule.fromLen, 0, rule.tableByte, 0,
    0, rule.action] rfl
    (show 0 + 8 ≤ 16 * 1024 * 1024 by decide)
  obtain ⟨hfailed', hbytes', -⟩ := @hroom _
    (hostOrder e 4 (if rule.invert then fibRuleInvert else 0)) hfailed (by
      rw [hbytes, hlimit, length_hostOrder]
      show 8 + 4 ≤ 16 * 1024 * 1024
      decide)
  exact ⟨hfailed', hbytes'.trans (by rw [hbytes]; rfl)⟩

theorem payload_of_request {limit : ℕ} {built : Buf} {flags : ℕ} {seq : UInt32}
    (hkind : kind < 2 ^ 16) (hflags : flags < 2 ^ 16)
    (h : ruleRequest e { limit:= limit } kind flags seq rule = .ok built) :
    (∀ a ∈ (rule.slots e).filterMap slotAttr, a.Fits) ∧ ∃ message,
      messagesOf e built.bytes = ([message], none) ∧
        message.payload = rule.header e ++ areaBytes e ((rule.slots e).filterMap slotAttr) := by
  obtain ⟨-, hbuilt⟩ := ruleRequest_ok.1 h
  obtain ⟨-, -, hok, hlong, hbytes⟩ := buildRequest_ok hbuilt ⟨0, rfl⟩
  obtain ⟨hattrs, hfits⟩ := holds_slots (@kinds_small e rule) (holds_newBuf e) hok
  have hbody : bytesOf (some (ruleHeader e rule rule.tableByte newBuf)) = rule.header e :=
    header_ok.2
  have hheader : (rule.header e).length = 12 := by simp [Rule.header]
  have hslots : bytesOf (some (rule.attrs e)) = areaBytes e ((rule.slots e).filterMap slotAttr) :=
    hattrs
  rw [hbody, hslots] at hbytes hlong
  have hpayload : (requestOf kind flags seq.toNat (rule.header e)
      (areaBytes e ((rule.slots e).filterMap slotAttr))).payload =
        rule.header e ++ areaBytes e ((rule.slots e).filterMap slotAttr) := by
    simp [requestOf, padding, hheader, Netlink.align4]
  refine ⟨hfits, _, ?_, hpayload⟩
  have hframed : Framed (requestOf kind flags seq.toNat (rule.header e)
      (areaBytes e ((rule.slots e).filterMap slotAttr))) := by
    refine ⟨?_, hlong, hkind, hflags, seq.toNat_lt, Nat.two_pow_pos 32, ?_⟩
    · rw [hpayload, List.length_append, hheader]
      simp [requestOf, hheader, Netlink.align4, Nat.add_assoc]
    · rw [hpayload, List.length_append, hheader]
      exact (by decide : 4 ∣ 12).add (dvd_length_areaBytes e _)
  rw [hbytes, List.nil_append, ← List.flatMap_singleton (frame e)]
  exact messagesOf_frames e (List.forall_mem_singleton.2 hframed)

/-! ## What is read of it -/

/-- An address with zeros for the bytes that mean nothing, none where its family is none. -/
def WireIp.settled (ip : WireIp) : WireIp :=
  if ip.family = afInet then
    ⟨afInet, ip.bytes.take 4 ++ List.replicate 12 0, by simp [ip.sixteen]⟩
  else if ip.family = afInet6 then ip
  else .absent

/-- What a rule says : with the protocol it is sent with, and no length but beside a selector. -/
def Rule.settled (rule : Rule) : Rule :=
  { rule with
    fromIp := rule.fromIp.settled
    fromLen := lengthBeside rule.fromIp rule.fromLen
    toIp := rule.toIp.settled
    toLen := lengthBeside rule.toIp rule.toLen
    protocol := some (rule.protocol.getD rtprotNetcfgd) }

theorem attrIp_sent {ip : WireIp} (h : ipPresent ip = true) :
    attrIp ⟨kind, ip.sent⟩ = some ip.settled := by
  obtain ⟨family, bytes, hsixteen⟩ := ip
  rcases of_decide_eq_true h with hfamily | hfamily
  · dsimp only at hfamily
    subst hfamily
    have hlength : (bytes.take 4).length = 4 := by simp [hsixteen]
    simp [attrIp, WireIp.sent, WireIp.settled, hlength]
  · dsimp only at hfamily
    subst hfamily
    have htake : bytes.take 16 = bytes := List.take_of_length_le hsixteen.le
    simp [attrIp, WireIp.sent, WireIp.settled, htake, hsixteen, afInet, afInet6]

theorem settled_absent {ip : WireIp} (h : ipPresent ip = false) : ip.settled = .absent := by
  obtain ⟨hfour, hsix⟩ := not_or.1 (of_decide_eq_false h)
  rw [WireIp.settled, if_neg hfour, if_neg hsix]

theorem attrName_text (name : IfName) :
    attrName ⟨kind, name.text ++ [0]⟩ = some name := by
  have hread := Utf8.attrString_ended name.short name.utf8 name.noNul
  unfold attrName
  split
  case h_1 why h => exact absurd (h.symm.trans hread) (by simp)
  case h_2 text h =>
    obtain rfl := Except.ok.inj (h.symm.trans hread)
    rfl

theorem attrU32_host (h : n < 2 ^ 32) :
    attrU32 e ⟨kind, hostOrder e 4 n⟩ = some (UInt32.ofNat n) := by
  have htake : (hostOrder e 4 n).take 4 = hostOrder e 4 n :=
    List.take_of_length_le (length_hostOrder ..).le
  simp [attrU32, htake, native_hostOrder e (show n < 256 ^ 4 from h)]

theorem number_read {value : Option ℤ} (h : InRange value uint32Max) :
    ((value.map (numberBytes e)).bind fun bytes => attrU32 e ⟨kind, bytes⟩) =
      value.map fun n => UInt32.ofNat n.toNat := by
  cases value with
  | none => rfl
  | some n =>
    obtain ⟨hlow, hhigh⟩ := h n rfl
    have hn : n.toNat < 2 ^ 32 := by
      rw [uint32Max] at hhigh
      omega
    exact attrU32_host hn

theorem number_back {value : Option ℤ} (h : InRange value uint32Max) :
    ((value.map fun n => UInt32.ofNat n.toNat).map fun n => (n.toNat : ℤ)) = value := by
  cases value with
  | none => rfl
  | some n =>
    obtain ⟨hlow, hhigh⟩ := h n rfl
    have hn : n.toNat < 2 ^ 32 := by
      rw [uint32Max] at hhigh
      omega
    simp [UInt32.toNat_ofNat_of_lt' hn, hlow]

def suppressorRead (value : Option ℤ) : Option ℤ :=
  if value = some (uint32Max : ℤ) then none else value

def Rule.record (rule : Rule) : RuleRecord where
  family := rule.family
  priority := rule.priority
  table := rule.table
  action := rule.action
  fromIp := rule.fromIp.settled
  fromLen := lengthBeside rule.fromIp rule.fromLen
  toIp := rule.toIp.settled
  toLen := lengthBeside rule.toIp rule.toLen
  iif := rule.iif
  oif := rule.oif
  fwmark := rule.fwmark.map fun n => UInt32.ofNat n.toNat
  fwmask := rule.fwmask.map fun n => UInt32.ofNat n.toNat
  suppressPrefixlength := (suppressorRead rule.suppressPrefixlength).map fun n =>
    UInt32.ofNat n.toNat
  l3mdev := rule.l3mdev
  invert := rule.invert
  protocol := UInt8.ofNat (rule.protocol.getD rtprotNetcfgd).toNat

theorem suppressor_read {value : Option ℤ} (h : InRange value uint32Max) :
    (if (value.map fun n => UInt32.ofNat n.toNat) = some 0xffffffff then none
      else value.map fun n => UInt32.ofNat n.toNat) =
        (suppressorRead value).map fun n => UInt32.ofNat n.toNat := by
  cases value with
  | none => rfl
  | some n =>
    obtain ⟨hlow, hhigh⟩ := h n rfl
    have hmax : uint32Max = 4294967295 := rfl
    have hn : n.toNat < 2 ^ 32 := by omega
    have hiff : UInt32.ofNat n.toNat = 0xffffffff ↔ n = uint32Max := by
      rw [← UInt32.toNat_inj, UInt32.toNat_ofNat_of_lt' hn]
      show n.toNat = 4294967295 ↔ _
      omega
    simp only [suppressorRead, Option.map_some, Option.some.injEq, hiff]
    split_ifs <;> rfl

theorem selector_read (ip : WireIp) :
    ((selectorBytes ip).bind fun bytes => attrIp ⟨kind, bytes⟩) =
      if ipPresent ip then some ip.settled else none := by
  unfold selectorBytes
  split_ifs with h
  · exact attrIp_sent h
  · rfl

theorem name_read (name : Option IfName) :
    ((name.map fun name => name.text ++ [0]).bind fun bytes => attrName ⟨kind, bytes⟩) = name := by
  cases name with
  | none => rfl
  | some name => exact attrName_text name

theorem dumpRule_payload (hnarrow : rule.Narrow)
    (hfits : ∀ a ∈ (rule.slots e).filterMap slotAttr, a.Fits) :
    dumpRule e (rule.header e ++ areaBytes e ((rule.slots e).filterMap slotAttr)) =
      .ok rule.record := by
  have hlength : (rule.header e).length = ruleHeaderLength := by
    simp [Rule.header, ruleHeaderLength]
  set area := areaBytes e ((rule.slots e).filterMap slotAttr)
  have hread : ∀ {α : Type} (read : Attr → Option α) (i : Fin (rule.slots e).length),
      areaRead e read ((rule.slots e).get i).1 area =
        .ok (((rule.slots e).get i).2.bind fun value => read ⟨((rule.slots e).get i).1, value⟩) :=
    fun read i => areaRead_slot read kinds_small kinds_nodup hfits (List.get_mem _ i)
  have hpriority : areaRead e (attrU32 e) fraPriority area = .ok (some rule.priority) :=
    (hread (attrU32 e) (0 : Fin 11)).trans
      (congrArg Except.ok ((attrU32_host rule.priority.toNat_lt).trans (by simp)))
  have htable : areaRead e (attrU32 e) fraTable area =
      .ok (if rule.table ≠ 0 then some rule.table else none) := by
    refine (hread (attrU32 e) (1 : Fin 11)).trans (congrArg Except.ok ?_)
    show (if rule.table ≠ 0 then some (hostOrder e 4 rule.table.toNat) else none).bind _ = _
    split_ifs
    · exact (attrU32_host rule.table.toNat_lt).trans (by simp)
    · rfl
  have hsrc := (hread attrIp (2 : Fin 11)).trans (congrArg Except.ok (selector_read rule.fromIp))
  have hdst := (hread attrIp (3 : Fin 11)).trans (congrArg Except.ok (selector_read rule.toIp))
  have hiif := (hread attrName (4 : Fin 11)).trans (congrArg Except.ok (name_read rule.iif))
  have hoif := (hread attrName (5 : Fin 11)).trans (congrArg Except.ok (name_read rule.oif))
  have hmark := (hread (attrU32 e) (6 : Fin 11)).trans
    (congrArg Except.ok (number_read hnarrow.fwmark))
  have hmask := (hread (attrU32 e) (7 : Fin 11)).trans
    (congrArg Except.ok (number_read hnarrow.fwmask))
  have hsuppress := (hread (attrU32 e) (8 : Fin 11)).trans
    (congrArg Except.ok (number_read hnarrow.suppressPrefixlength))
  have hl3mdev : areaRead e attrU8 fraL3mdev area = .ok (if rule.l3mdev then some 1 else none) := by
    refine (hread attrU8 (9 : Fin 11)).trans (congrArg Except.ok ?_)
    show (if rule.l3mdev then some [1] else none).bind _ = _
    cases rule.l3mdev <;> rfl
  have hprotocol : areaRead e attrU8 fraProtocol area =
      .ok (some (UInt8.ofNat (rule.protocol.getD rtprotNetcfgd).toNat)) :=
    hread attrU8 (10 : Fin 11)
  change areaRead e attrIp fraSrc area = _ at hsrc
  change areaRead e attrIp fraDst area = _ at hdst
  change areaRead e attrName fraIifname area = _ at hiif
  change areaRead e attrName fraOifname area = _ at hoif
  change areaRead e (attrU32 e) fraFwmark area = _ at hmark
  change areaRead e (attrU32 e) fraFwmask area = _ at hmask
  change areaRead e (attrU32 e) fraSuppressPrefixlen area = _ at hsuppress
  have hdrop : (rule.header e ++ area).drop ruleHeaderLength = area := List.drop_left' hlength
  have hflags : ((rule.header e ++ area).drop 8).take 4 =
      hostOrder e 4 (if rule.invert then fibRuleInvert else 0) := by
    rw [Rule.header, List.append_assoc]
    exact List.take_left' (length_hostOrder ..)
  rw [dumpRule, if_neg (by rw [List.length_append, hlength]; omega)]
  simp only [hdrop, hpriority, htable, hsrc, hdst, hiif, hoif, hmark, hmask, hsuppress, hl3mdev,
    hprotocol, hflags, bind, Except.bind]
  refine congrArg Except.ok ?_
  rw [Rule.record, ← suppressor_read hnarrow.suppressPrefixlength]
  simp only [RuleRecord.mk.injEq, true_and]
  have hsettled : ∀ ip : WireIp,
      (if ipPresent ip then some ip.settled else none).getD .absent = ip.settled ∧
        ((if ipPresent ip then some ip.settled else none).isSome = true ↔ ipPresent ip = true) := by
    intro ip
    split_ifs with hip
    · exact ⟨rfl, by simp [hip]⟩
    · exact ⟨(settled_absent (Bool.eq_false_of_not_eq_true hip)).symm, by simp [hip]⟩
  have hbeside : ∀ (ip : WireIp) (n : UInt8),
      (if ipPresent ip then lengthBeside ip n else 0) = lengthBeside ip n := by
    intro ip n
    unfold lengthBeside
    split_ifs <;> rfl
  refine ⟨rfl, rfl, ?_, rfl, (hsettled _).1, ?_, (hsettled _).1, ?_, ?_, ?_, rfl⟩
  · show (if rule.table ≠ 0 then some rule.table else none).getD rule.tableByte.toUInt32 =
      rule.table
    split_ifs with htable
    · rfl
    · rw [not_not] at htable
      rw [Rule.tableByte, htable]
      rfl
  · exact (if_congr (hsettled _).2 rfl rfl).trans (hbeside _ _)
  · exact (if_congr (hsettled _).2 rfl rfl).trans (hbeside _ _)
  · cases rule.l3mdev <;> rfl
  · rw [native_hostOrder e (by cases rule.invert <;> decide)]
    cases rule.invert <;> rfl

theorem spec_record (hnarrow : rule.Narrow) : ruleRecordSpec rule.record =
    { rule.settled with suppressPrefixlength := suppressorRead rule.suppressPrefixlength } := by
  have hsuppress : InRange (suppressorRead rule.suppressPrefixlength) uint32Max := by
    unfold suppressorRead
    split_ifs
    · exact nofun
    · exact hnarrow.suppressPrefixlength
  have hprotocol : ((UInt8.ofNat (rule.protocol.getD rtprotNetcfgd).toNat).toNat : ℤ) =
      rule.protocol.getD rtprotNetcfgd := by
    rcases hvalue : rule.protocol with _ | n
    · rfl
    · obtain ⟨hlow, hhigh⟩ := hnarrow.protocol n hvalue
      rw [Option.getD_some, UInt8.toNat_ofNat_of_lt' (by omega : n.toNat < 256)]
      omega
  simp only [ruleRecordSpec, Rule.record, Rule.settled, number_back hnarrow.fwmark,
    number_back hnarrow.fwmask, number_back hsuppress, hprotocol]

theorem sent_settled {ip : WireIp} (h : ipPresent ip = true) :
    ipPresent ip.settled = true ∧ ip.settled.sent = ip.sent := by
  obtain ⟨family, bytes, hsixteen⟩ := ip
  rcases of_decide_eq_true h with hfamily | hfamily
  · dsimp only at hfamily
    subst hfamily
    have hlength : (bytes.take 4).length = 4 := by simp [hsixteen]
    exact ⟨rfl, by simp [WireIp.sent, WireIp.settled, hlength]⟩
  · dsimp only at hfamily
    subst hfamily
    exact ⟨rfl, rfl⟩

theorem sent_as_said : rule.settled.slots e = rule.slots e ∧
    rule.settled.header e = rule.header e ∧
      ruleHeader e rule.settled rule.settled.tableByte newBuf =
        ruleHeader e rule rule.tableByte newBuf := by
  have hselector : ∀ ip : WireIp, selectorBytes ip.settled = selectorBytes ip := by
    intro ip
    unfold selectorBytes
    by_cases hip : ipPresent ip = true
    · rw [if_pos hip, if_pos (sent_settled hip).1, (sent_settled hip).2]
    · rw [settled_absent (Bool.eq_false_of_not_eq_true hip), if_neg hip]
      rfl
  have hlength : ∀ (ip : WireIp) (n : UInt8),
      lengthBeside ip.settled (lengthBeside ip n) = lengthBeside ip n := by
    intro ip n
    unfold lengthBeside
    by_cases hip : ipPresent ip = true
    · rw [if_pos (sent_settled hip).1]
    · rw [if_neg hip, ite_self]
  refine ⟨?_, ?_, ?_⟩
  · simp only [Rule.slots, Rule.settled, hselector, Option.getD_some]
    rfl
  · simp only [Rule.header, Rule.settled, Rule.tableByte, hlength]
    rfl
  · simp only [ruleHeader, Rule.settled, Rule.tableByte, hlength]
    rfl

end Slots

/-! ## A delete of what was read -/

/-- Two buffers with as much in them and as much room. -/
structure SameSize (a b : Buf) : Prop where
  failed : a.failed = b.failed
  limit : a.limit = b.limit
  length : a.bytes.length = b.bytes.length

theorem SameSize.add {a b : Buf} (h : SameSize a b) {x y : Bytes} (hlength : x.length = y.length) :
    SameSize (a.add x) (b.add y) := by
  have hnil : x = [] ↔ y = [] := by
    rw [← List.length_eq_zero_iff, hlength, List.length_eq_zero_iff]
  unfold Buf.add
  simp only [hnil, h.failed, h.limit, h.length, hlength]
  split_ifs
  · exact h
  · exact ⟨rfl, rfl, h.length⟩
  · exact ⟨rfl, rfl, by rw [List.length_append, List.length_append, h.length, hlength]⟩

theorem fits_too {e : Endian} {kind flags seq kind' flags' seq' limit : ℕ} {body attrs : Option Buf}
    {built : Buf} (h : buildRequest e kind flags seq body attrs { limit := limit } = .ok built) :
    ∃ built', buildRequest e kind' flags' seq' body attrs { limit := limit } = .ok built' := by
  have hheader : ∀ total, SameSize (headerEncode e ⟨total, kind, flags, seq, 0⟩ { limit := limit })
      (headerEncode e ⟨total, kind', flags', seq', 0⟩ { limit := limit }) := by
    intro total
    refine (((SameSize.add ⟨rfl, rfl, rfl⟩ rfl).add ?_).add ?_).add ?_ |>.add rfl <;>
      rw [length_hostOrder, length_hostOrder]
  have hpadded : ∀ {a b : Buf}, SameSize a b → SameSize (padToAlign a) (padToAlign b) := by
    intro a b hab
    unfold padToAlign
    rw [hab.failed, hab.length]
    split_ifs
    · exact hab
    · exact hab.add rfl
  have hwhole : ∀ total, SameSize
      ((if bytesOf body = [] then headerEncode e ⟨total, kind, flags, seq, 0⟩ { limit := limit }
        else padToAlign ((headerEncode e ⟨total, kind, flags, seq, 0⟩ { limit := limit }).add
          (bytesOf body))).add (bytesOf attrs))
      ((if bytesOf body = [] then headerEncode e ⟨total, kind', flags', seq', 0⟩ { limit := limit }
        else padToAlign ((headerEncode e ⟨total, kind', flags', seq', 0⟩ { limit := limit }).add
          (bytesOf body))).add (bytesOf attrs)) := by
    intro total
    refine SameSize.add ?_ rfl
    split_ifs
    · exact hheader total
    · exact hpadded ((hheader total).add rfl)
  unfold buildRequest at h ⊢
  dsimp only at h ⊢
  by_cases hbody : body.any Buf.failed = true
  · rw [if_pos hbody] at h
    cases h
  by_cases hattrs : attrs.any Buf.failed = true
  · rw [if_neg hbody, if_pos hattrs] at h
    cases h
  rw [if_neg hbody, if_neg hattrs] at h ⊢
  by_cases hlong : 0xffffffff < headerLength + Netlink.align4 (bytesOf body).length +
      (bytesOf attrs).length
  · rw [if_pos hlong] at h
    cases h
  rw [if_neg hlong] at h ⊢
  have hsame := (hwhole (headerLength + Netlink.align4 (bytesOf body).length +
    (bytesOf attrs).length)).failed
  have hclose : ∀ {a b : Buf} {said : String}, a.failed = b.failed →
      (if a.failed then Except.error said else .ok a) = .ok built →
        ∃ built', (if b.failed then Except.error said else .ok b) = .ok built' := by
    intro a b said hab ha
    rw [hab] at ha
    by_cases hb : b.failed = true
    · rw [if_pos hb] at ha
      cases ha
    · exact ⟨b, if_neg hb⟩
  exact hclose hsame h

/-! ## Which rules survive -/

/-- A rule that was added reads back as what it says, and a delete of what was read carries what the
request for it did. -/
def SurvivesWire (e : Endian) (limit : ℕ) (rule : Rule) (built : Buf) : Prop :=
  ∃ message record, messagesOf e built.bytes = ([message], none) ∧
    dumpRule e message.payload = .ok record ∧ ruleRecordSpec record = rule.settled ∧
      ∀ seq, ∃ deleted deletion,
        delRule e { limit := limit } seq (ruleRecordSpec record) = .ok deleted ∧
          messagesOf e deleted.bytes = ([deletion], none) ∧ deletion.payload = message.payload

theorem Rule.Narrow.settled {rule : Rule} (h : rule.Narrow) : rule.settled.Narrow where
  protocol := by
    rintro n hn
    obtain rfl := Option.some.inj hn
    rcases hvalue : rule.protocol with _ | n
    · decide
    · exact h.protocol n hvalue
  fwmark := h.fwmark
  fwmask := h.fwmask
  suppressPrefixlength := h.suppressPrefixlength

section Survives

variable {e : Endian} {limit : ℕ} {seq : UInt32} {rule : Rule} {built : Buf}

theorem read_back (h : addRule e { limit := limit } seq rule = .ok built) : ∃ message,
    messagesOf e built.bytes = ([message], none) ∧
      message.payload = rule.header e ++ areaBytes e ((rule.slots e).filterMap slotAttr) ∧
        dumpRule e message.payload = .ok rule.record := by
  obtain ⟨hfits, message, hmessage, hpayload⟩ := payload_of_request (by decide) (by decide) h
  exact ⟨message, hmessage, hpayload, by
    rw [hpayload, dumpRule_payload (ruleRequest_ok.1 h).1 hfits]⟩

/-- A rule survives that suppresses no prefix length of the unset value. -/
theorem survives_of_suppressor (h : addRule e { limit := limit } seq rule = .ok built)
    (hsuppress : rule.suppressPrefixlength ≠ some (uint32Max : ℤ)) :
    SurvivesWire e limit rule built := by
  obtain ⟨message, hmessage, hpayload, hdump⟩ := read_back h
  obtain ⟨hnarrow, hbuilt⟩ := ruleRequest_ok.1 h
  have hspec : ruleRecordSpec rule.record = rule.settled := by
    rw [spec_record hnarrow, suppressorRead, if_neg hsuppress]
    rfl
  refine ⟨message, rule.record, hmessage, hdump, hspec, fun seq' => ?_⟩
  obtain ⟨hslots, hheader, hbody⟩ := @sent_as_said e rule
  have hattrs : rule.settled.attrs e = rule.attrs e := by rw [Rule.attrs, hslots, Rule.attrs]
  obtain ⟨deleted, hdeleted⟩ := @fits_too _ _ _ _ 33 ackFlags seq'.toNat _ _ _ _ hbuilt
  have hdel : delRule e { limit := limit } seq' rule.settled = .ok deleted :=
    ruleRequest_ok.2 ⟨hnarrow.settled, by rw [hbody, hattrs]; exact hdeleted⟩
  obtain ⟨-, deletion, hdeletion, hsame⟩ := payload_of_request (by decide) (by decide) hdel
  exact ⟨deleted, deletion, by rw [hspec]; exact hdel, hdeletion, by
    rw [hsame, hpayload, hslots, hheader]⟩

/-- A rule that survives suppresses none. -/
theorem suppressor_of_survives (h : addRule e { limit := limit } seq rule = .ok built)
    (hsurvives : SurvivesWire e limit rule built) :
    rule.suppressPrefixlength ≠ some (uint32Max : ℤ) := by
  intro hmax
  obtain ⟨message, hmessage, hpayload, hdump⟩ := read_back h
  obtain ⟨message', record, hmessage', hdump', hspec, -⟩ := hsurvives
  obtain rfl : message = message' := by
    rw [hmessage] at hmessage'
    simpa using hmessage'
  obtain rfl : rule.record = record := Except.ok.inj (hdump.symm.trans hdump')
  rw [spec_record (ruleRequest_ok.1 h).1] at hspec
  have hfield := congrArg Rule.suppressPrefixlength hspec
  rw [Rule.settled] at hfield
  dsimp only at hfield
  rw [hmax, suppressorRead, if_pos rfl] at hfield
  cases hfield

/-- A rule survives the wire if and only if its suppressor is not `UINT32_MAX`. -/
theorem survives_iff (h : addRule e { limit := limit } seq rule = .ok built) :
    SurvivesWire e limit rule built ↔ rule.suppressPrefixlength ≠ some (uint32Max : ℤ) :=
  ⟨suppressor_of_survives h, survives_of_suppressor h⟩

end Survives

def plainRule (suppress : Option ℤ) : Rule where
  family := 2
  priority := 1200
  table := 1000
  action := 1
  fromIp := .absent
  fromLen := 0
  toIp := .absent
  toLen := 0
  iif := none
  oif := none
  fwmark := none
  fwmask := none
  suppressPrefixlength := suppress
  l3mdev := false
  invert := false
  protocol := none

theorem plainRule_built : ∀ suppress ∈ [some 0, some 4294967295], ∃ built,
    addRule .little { limit := 4096 } 1 (plainRule suppress) = .ok built := by
  have hok : ∀ suppress ∈ [some 0, some 4294967295],
      (addRule .little { limit := 4096 } 1 (plainRule suppress)).isOk = true := by decide +kernel
  intro suppress hsuppress
  rcases hbuilt : addRule .little { limit := 4096 } 1 (plainRule suppress) with said | built
  · have hfalse := hok suppress hsuppress
    rw [hbuilt] at hfalse
    cases hfalse
  · exact ⟨built, rfl⟩

def wiredName : IfName := ⟨Json.asciis "eth0", by decide, by decide +kernel, by decide +kernel⟩

/-- The marked traffic of a private network that comes in on a wire. -/
def markedRule : Rule :=
  { plainRule (some 0) with
    fromIp := ⟨afInet, [10, 0, 0, 0] ++ List.replicate 12 0, rfl⟩
    fromLen := 8
    iif := some wiredName
    fwmark := some 0x100
    fwmask := some 0xff00
    table := 51820
    invert := true }

/-- A rule with a selector, a name, a mark and `suppress_prefixlength 0`, added and read back on a
machine of the other order. -/
theorem marked_survives : ∃ built, addRule .big { limit := 4096 } 1 markedRule = .ok built ∧
    SurvivesWire .big 4096 markedRule built := by
  have hok : (addRule .big { limit := 4096 } 1 markedRule).isOk = true := by decide +kernel
  rcases hbuilt : addRule .big { limit := 4096 } 1 markedRule with said | built
  · rw [hbuilt] at hok
    cases hok
  · exact ⟨built, rfl, (survives_iff hbuilt).2 (by decide)⟩

/-- `suppress_prefixlength 4294967295` does not survive. -/
theorem all_ones_lost : ∃ built,
    addRule .little { limit := 4096 } 1 (plainRule (some 4294967295)) = .ok built ∧
      ¬SurvivesWire .little 4096 (plainRule (some 4294967295)) built := by
  obtain ⟨built, hbuilt⟩ := plainRule_built (some 4294967295) (by simp)
  exact ⟨built, hbuilt, fun hsurvives => suppressor_of_survives hbuilt hsurvives rfl⟩

end Netcfgd.RuleWire
