import Netcfgd.AttrString
import Netcfgd.NftBuild

/-!
# The bytes of the nftables transaction

`ncfg_nft_build_replace_all` of `src/sys/nft.c` as it fills a buffer : the attributes of each
message, the messages in the order they go (`Draft`), the audit that walks the finished
transaction, and the one append to the buffer of the caller. What a rule is made of is `NftBuild`'s,
and the framing is `Wire`'s.

A firewall here is any the planner may hand over, an undo copy among them, whose rules carry their
schedules as the pieces they were read back as (`FirewallRule`).
-/

namespace Netcfgd.Nft

open Compile Schedule Nftables Wire
open Json (Buf)

/-! ## Names and numbers -/

/-- `NCFG_NFT_TABLE`. -/
def nftTable : String := "netcfgd"

/-- `OUR_CHAINS`. -/
def ourChains : List String := ["postrouting", "input", "forward", "output", "prerouting"]

/-- The kinds of message this module writes, of those of the nftables subsystem. -/
inductive Write
  | newTable
  | delTable
  | newChain
  | newRule
  deriving DecidableEq, Repr

/-- `NFT_MSG_NEWTABLE` and the others. -/
def Write.number : Write → ℕ
  | .newTable => 0
  | .delTable => 2
  | .newChain => 3
  | .newRule => 6

/-- `NFNL_SUBSYS_NFTABLES`. -/
def subsystem : ℕ := 10

/-- `NFT_MESSAGE`. -/
def nftMessage (kind : ℕ) : ℕ := subsystem * 256 + kind

/-- `NFNL_MSG_BATCH_BEGIN`. -/
def batchBegin : ℕ := 16

/-- `NFNL_MSG_BATCH_END`. -/
def batchEnd : ℕ := 17

/-- `NLM_F_REQUEST`. -/
def nlmFRequest : ℕ := 1

/-- `NLM_F_ACK`. -/
def nlmFAck : ℕ := 4

/-- `NLM_F_CREATE`. -/
def nlmFCreate : ℕ := 0x400

/-- `NLM_F_APPEND`. -/
def nlmFAppend : ℕ := 0x800

/-- `NFPROTO_UNSPEC`. -/
def nfprotoUnspec : UInt8 := 0

/-- `NFPROTO_INET`. -/
def nfprotoInet : UInt8 := 1

/-- The key of a `meta` load. -/
def metaNumber : MetaKey → ℕ
  | .iifname => 6
  | .oifname => 7
  | .iiftype => 8
  | .nfproto => 15
  | .l4proto => 16
  | .timeDay => 31
  | .timeHour => 32

/-- The key of a `ct` load. -/
def ctNumber : CtKey → ℕ
  | .state => 0
  | .status => 2

/-- The base of a `payload` load. -/
def headerNumber : Nftables.Header → ℕ
  | .link => 0
  | .network => 1
  | .transport => 2

def cmpNumber : CmpOp → ℕ
  | .eq => 0
  | .neq => 1

/-! ## Attributes -/

section Attributes

variable (e : Endian)

/-- `put_be32`. -/
def putBe32 (kind value : ℕ) (out : Buf) : Buf := attrPut e kind (networkOrder 4 value) out

/-- `ncfg_wire_attr_put_str`. -/
def attrPutStr (kind : ℕ) (value : String) (out : Buf) : Buf :=
  attrPut e kind (cBytes value ++ [0]) out

/-- `put_data`. -/
def putData (kind : ℕ) (bytes : Bytes) (out : Buf) : Buf :=
  attrPutNested e kind (attrPut e 1 bytes newBuf) out

/-- `put_expression`. -/
def putExpression (name : String) (data : Buf) (list : Buf) : Buf :=
  attrPutNested e 1 (attrPutNested e 2 data (attrPutStr e 1 name newBuf)) list

/-- What an `immediate` with a verdict carries. -/
def verdictData (accept : Bool) : Buf :=
  let code := putBe32 e 1 (if accept then 1 else 0) newBuf
  attrPutNested e 2 (attrPutNested e 2 code newBuf) (putBe32 e 1 0 newBuf)

/-- One expression, at the end of a rule's list : `put_meta`, `put_payload`, `put_cmp`, `put_mask`,
`put_immediate` and the ones that are written where they stand. -/
def putExpr (list : Buf) : Expr → Buf
  | .load key => putExpression e "meta" (putBe32 e 1 1 (putBe32 e 2 (metaNumber key) newBuf)) list
  | .payload header offset length =>
    putExpression e "payload" (putBe32 e 4 length (putBe32 e 3 offset
      (putBe32 e 2 (headerNumber header) (putBe32 e 1 1 newBuf)))) list
  | .ct key => putExpression e "ct" (putBe32 e 1 1 (putBe32 e 2 (ctNumber key) newBuf)) list
  | .bitwise mask xor =>
    putExpression e "bitwise" (putData e 5 xor (putData e 4 mask
      (putBe32 e 3 mask.length (putBe32 e 2 1 (putBe32 e 1 1 newBuf))))) list
  | .byteorder =>
    putExpression e "byteorder" (putBe32 e 5 4 (putBe32 e 4 4 (putBe32 e 3 1
      (putBe32 e 2 1 (putBe32 e 1 1 newBuf))))) list
  | .cmp op bytes =>
    putExpression e "cmp" (putData e 3 bytes (putBe32 e 2 (cmpNumber op)
      (putBe32 e 1 1 newBuf))) list
  | .range first last =>
    putExpression e "range" (putData e 4 last (putData e 3 first
      (putBe32 e 2 0 (putBe32 e 1 1 newBuf)))) list
  | .verdict accept => putExpression e "immediate" (verdictData e accept) list
  | .reject => putExpression e "reject" (attrPut e 2 [1] (putBe32 e 1 2 newBuf)) list
  | .immediate register bytes =>
    putExpression e "immediate" (putData e 2 bytes (putBe32 e 1 register newBuf)) list
  | .nat family =>
    putExpression e "nat" (putBe32 e 7 2 (putBe32 e 5 2 (putBe32 e 3 1
      (putBe32 e 2 family.number.toNat (putBe32 e 1 1 newBuf))))) list
  | .masq => putExpression e "masq" newBuf list

def expressions (exprs : List Expr) : Buf := exprs.foldl (putExpr e) newBuf

def tableAttrs : Buf := attrPutStr e 1 nftTable newBuf

/-- A base chain of netcfgd's table, with the policy of one that filters. -/
def baseChain (name : String) (hook priority : ℕ) (type : String) (policy : Option ℕ) : Buf :=
  let nest := putBe32 e 2 priority (putBe32 e 1 hook newBuf)
  let attrs := attrPutStr e 7 type (attrPutNested e 4 nest
    (attrPutStr e 3 name (attrPutStr e 1 nftTable newBuf)))
  match policy with
  | some policy => putBe32 e 5 policy attrs
  | none => attrs

/-- `nat_chain` : `type nat hook postrouting priority srcnat`. -/
def natChain : Buf := baseChain e "postrouting" 4 100 "nat" none

/-- `prerouting_chain` : `type nat hook prerouting priority dstnat`, which is -100. -/
def preroutingChain : Buf := baseChain e "prerouting" 0 (2 ^ 32 - 100) "nat" none

def hookNumber : ChainName → ℕ
  | .input => 1
  | .forward => 2
  | .output => 3

/-- `NF_DROP` or `NF_ACCEPT`. -/
def policyNumber : ChainPolicy → ℕ
  | .drop => 0
  | .accept => 1

/-- `filter_chain`. -/
def filterChainAttrs (hook : ChainName) (policy : ChainPolicy) : Buf :=
  baseChain e hook.text (hookNumber hook) 0 "filter" (some (policyNumber policy))

/-- nft's comment : type 0, a length that counts the NUL, the text and its NUL. -/
def userdata (comment : String) : Buf :=
  (newBuf.add [0, UInt8.ofNat ((cBytes comment).length + 1)]).add (cBytes comment ++ [0])

/-- The attributes of a rule in a chain, with its comment where it has one. -/
def ruleAttrs (chain : String) (rule : KernelRule) : Buf :=
  let attrs := attrPutNested e 4 (expressions e rule.exprs)
    (attrPutStr e 2 chain (attrPutStr e 1 nftTable newBuf))
  match rule.comment with
  | some comment => attrPut e 7 (userdata comment).bytes attrs
  | none => attrs

/-! ## Messages -/

/-- `put_nfgenmsg` : what stands before every message's attributes. -/
def nfgenmsg (family : UInt8) (resId : ℕ) : Bytes := [family, 0] ++ networkOrder 2 resId

/-- `build`. -/
def build (write : Write) (flags seq : ℕ) (attrs out : Buf) : Except String Buf :=
  buildRequest e (nftMessage write.number) (nlmFRequest ||| flags) seq
    (some (newBuf.add (nfgenmsg nfprotoInet 0))) (some attrs) out

/-- `batch_marker`. -/
def batchMarker (kind seq : ℕ) (out : Buf) : Except String Buf :=
  buildRequest e kind nlmFRequest seq (some (newBuf.add (nfgenmsg nfprotoUnspec subsystem))) none
    out

/-- A transaction that is being built, with the number the next message takes and the last one that
asks for an acknowledgement. -/
structure Draft where
  transaction : Buf := newBuf
  seq : UInt32
  lastAcked : UInt32

def Draft.marker (d : Draft) (kind : ℕ) : Except String Draft := do
  let transaction ← batchMarker e kind d.seq.toNat d.transaction
  return { d with transaction, seq := d.seq + 1 }

def Draft.send (d : Draft) (write : Write) (flags : ℕ) (attrs : Buf) : Except String Draft := do
  let transaction ← build e write (nlmFAck ||| flags) d.seq.toNat attrs d.transaction
  return ⟨transaction, d.seq + 1, d.seq⟩

end Attributes

/-! ## A rule that may be an undo copy -/

/-- `ncfg_firewall_rule_t` : with the pieces of its schedule, where it was rebuilt from the
kernel. -/
structure FirewallRule extends Compile.Rule where
  utcPieces : List String := []
  deriving DecidableEq, Repr

/-- `ncfg_firewall_chain_t`. -/
structure FirewallChain where
  policy : ChainPolicy := .accept
  rules : List FirewallRule := []
  deriving DecidableEq, Repr

/-- `ncfg_firewall_t`. -/
structure FirewallTree where
  input : FirewallChain := {}
  forward : FirewallChain := {}
  output : FirewallChain := {}
  deriving DecidableEq, Repr

def FirewallTree.chain (fw : FirewallTree) : ChainName → FirewallChain
  | .input => fw.input
  | .forward => fw.forward
  | .output => fw.output

/-- `%ld` : a number after any blanks, and what follows it. -/
def scanNumber (text : List Char) : Option (ℤ × List Char) :=
  let unsigned (sign : ℤ) (text : List Char) : Option (ℤ × List Char) :=
    let digits := text.takeWhile Char.isDigit
    if digits = [] then none
    else some (sign * digits.foldl (fun n c => n * 10 + digitValue c) 0, text.drop digits.length)
  match text.dropWhile isSpace with
  | '-' :: rest => unsigned (-1) rest
  | '+' :: rest => unsigned 1 rest
  | rest => unsigned 1 rest

def scanPair (text : List Char) : Option (ℤ × ℤ) :=
  (scanNumber text).bind fun (first, rest) => (scanNumber rest).bind fun (last, rest) =>
    if rest = [] then some (first, last) else none

/-- The day a piece is on, none where it is on any, and the rest of its text. -/
def scanDay (text : List Char) : Option (Option ℤ × List Char) :=
  if "any ".toList <+: text then some (none, text.drop 4)
  else (scanNumber text).bind fun (day, rest) =>
    if 0 ≤ day ∧ day ≤ 6 then some (some day, rest) else none

/-- `ncfg_schedule_piece_read`. -/
def pieceRead (text : String) : Option Piece :=
  (scanDay text.toList).bind fun (day, rest) => (scanPair rest).bind fun (first, last) =>
    if first < 0 ∨ last < first ∨ 86400 ≤ last then none else some ⟨day, first, last⟩

variable (host : Host)

/-- `rule_pieces` : the pieces a rule carries, or those its schedule is in UTC. -/
def FirewallRule.pieces (r : FirewallRule) : Option (List Piece) :=
  if r.utcPieces ≠ [] then
    if piecesMax < r.utcPieces.length then none else r.utcPieces.mapM pieceRead
  else (rulePieces host r.toRule).toOption

/-- `rule_comment`, whose text has a buffer of its own. -/
def describeRule (hook : ChainName) (r : FirewallRule) (pieces : List Piece) :
    Except String String :=
  if defaultLimit < (firewallRuleText host hook r.toRule pieces).utf8ByteSize then
    .error s!"out of memory describing rule \x60{r.name}\x60"
  else ruleComment host hook r.toRule pieces

/-- `forward_checked`, whose text has one too. -/
def describeForward (f : ForwardRule) : Except String (ForwardParts × String) := do
  let checked ← forwardChecked host f
  if defaultLimit < (forwardText f).utf8ByteSize then
    throw s!"out of memory describing port forward \x60{f.name}\x60"
  return checked

/-! ## The transaction -/

/-- What each combination of a rule's values adds, and how many were written. -/
def combinationMessage (hook : ChainName) (r : FirewallRule) (comment : String)
    (written : Draft × ℕ) (c : Combination) : Except String (Draft × ℕ) := do
  if ← mixedFamilies host c then return written
  let exprs ← firewallRule host hook (c.rule r.toRule) c.piece
  let d ← written.1.send host.endian .newRule (nlmFCreate ||| nlmFAppend)
    (ruleAttrs host.endian hook.text ⟨exprs, some comment⟩)
  return (d, written.2 + 1)

/-- `firewall_rule_messages`. -/
def ruleMessages (hook : ChainName) (d : Draft) (r : FirewallRule) : Except String Draft :=
  match r.pieces host with
  | none => .error s!"rule \x60{hook.text}/{r.name}\x60 has a schedule that cannot be read"
  | some pieces =>
    let count := (combinations r.toRule pieces).length
    if expansionMax < count then
      .error (s!"rule \x60{hook.text}/{r.name}\x60 would be {count} kernel rules, one per " ++
        "combination of its ports, addresses, stations and the pieces its schedule is in UTC, " ++
        s!"and {expansionMax} is the most one rule may become; split it")
    else do
      let comment ← describeRule host hook r pieces
      let written ← (combinations r.toRule pieces).foldlM (combinationMessage host hook r comment)
        (d, 0)
      if written.2 = 0 then
        throw (s!"rule \x60{hook.text}/{r.name}\x60 matches only IPv4 sources with IPv6 " ++
          "destinations or the reverse, which no packet carries")
      return written.1

def chainMessages (fw : FirewallTree) (d : Draft) (hook : ChainName) : Except String Draft := do
  let d ← d.send host.endian .newChain nlmFCreate
    (filterChainAttrs host.endian hook (fw.chain hook).policy)
  (fw.chain hook).rules.foldlM (ruleMessages host hook) d

/-- `forward_messages`, one forward. -/
def forwardMessage (postrouting : Bool) (d : Draft) (f : ForwardRule) : Except String Draft :=
  if f.kind.isHairpin ≠ postrouting then .ok d
  else do
    let (parts, comment) ← describeForward host f
    d.send host.endian .newRule (nlmFCreate ||| nlmFAppend)
      (ruleAttrs host.endian f.kind.chain ⟨forwardRule f parts, some comment⟩)

/-- The masquerade of an uplink, which goes before the rules that are there. -/
def uplinkMessage (d : Draft) (uplink : String) : Except String Draft :=
  d.send host.endian .newRule nlmFCreate
    (ruleAttrs host.endian "postrouting" (masqueradeRule uplink))

def chainWhere (needed : Bool) (attrs : Buf) (d : Draft) : Except String Draft :=
  if needed then d.send host.endian .newChain nlmFCreate attrs else .ok d

def filterMessages (firewall : Option FirewallTree) (d : Draft) : Except String Draft :=
  match firewall with
  | some fw => [ChainName.input, .forward, .output].foldlM (chainMessages host fw) d
  | none => .ok d

def fillTable (uplinks : List String) (firewall : Option FirewallTree)
    (forwards : List ForwardRule) (d : Draft) : Except String Draft := do
  let d ← chainWhere host (uplinks ≠ [] ∨ forwards.any (·.kind.isHairpin)) (natChain host.endian) d
  let d ← uplinks.foldlM (uplinkMessage host) d
  let d ← forwards.foldlM (forwardMessage host true) d
  let d ← chainWhere host (forwards.any (!·.kind.isHairpin)) (preroutingChain host.endian) d
  let d ← forwards.foldlM (forwardMessage host false) d
  filterMessages host firewall d

def deleteTable (tableExists : Bool) (d : Draft) : Except String Draft :=
  if tableExists then d.send host.endian .delTable 0 (tableAttrs host.endian) else .ok d

def makeTable (uplinks : List String) (firewall : Option FirewallTree)
    (forwards : List ForwardRule) (d : Draft) : Except String Draft :=
  if uplinks ≠ [] ∨ firewall ≠ none ∨ forwards ≠ [] then do
    let d ← d.send host.endian .newTable nlmFCreate (tableAttrs host.endian)
    fillTable host uplinks firewall forwards d
  else .ok d

/-- The whole transaction, as a draft. -/
def transactionOf (firstSeq : UInt32) (tableExists : Bool) (uplinks : List String)
    (firewall : Option FirewallTree) (forwards : List ForwardRule) : Except String Draft := do
  let d ← Draft.marker host.endian { seq := firstSeq, lastAcked := firstSeq } batchBegin
  let d ← deleteTable host tableExists d
  let d ← makeTable host uplinks firewall forwards d
  d.marker host.endian batchEnd

/-! ## The audit -/

section Audit

variable (e : Endian)

def shown (name : Bytes) : String := String.ofList (name.map fun b => Char.ofNat b.toNat)

/-- `NCFG_NFT_NAME_MAX`. -/
def nameMax : ℕ := 256

/-- `read_name`. -/
def readName (area : Bytes) (kind : ℕ) : Except String Bytes :=
  match attrsFind e kind area with
  | .ok attr => Utf8.attrString nameMax attr.value
  | .error _ => .error s!"an nftables message with no attribute {kind}"

/-- `name_must_be`, for a table. -/
def tableMustBeOurs (area : Bytes) (kind : ℕ) : Except String Unit :=
  match readName e area kind with
  | .error _ => .error "a message that would change something and names no table"
  | .ok name =>
    if name = cBytes nftTable then .ok ()
    else .error (s!"a message would write to table \x60{shown name}\x60; netcfgd owns " ++
      s!"\x60{nftTable}\x60 and touches nothing else (0022)")

local instance lawfulBEqBytes : @LawfulBEq Bytes List.instBEq := List.instLawfulBEq

/-- `chain_must_be_ours`. -/
def chainMustBeOurs (area : Bytes) (kind : ℕ) : Except String Unit :=
  match readName e area kind with
  | .error _ => .error "a message that would change something and names no chain"
  | .ok name =>
    if name ∈ ourChains.map cBytes then .ok ()
    else .error (s!"a message would write to chain \x60{shown name}\x60; netcfgd's table holds " ++
      "\x60postrouting\x60, \x60prerouting\x60, \x60input\x60, \x60forward\x60 and " ++
      "\x60output\x60 and nothing else (0022, 0294, 0298)")

/-- `NCFG_NFT_NFGENMSG_LEN`. -/
def nfgenmsgLength : ℕ := 4

def networkPair (bytes : Bytes) : ℕ := (bytes.getD 0 0).toNat * 256 + (bytes.getD 1 0).toNat

/-- `marker_is_nftables`. -/
def markerIsNftables (m : Netlink.Message) : Except String Unit :=
  if m.payload.length < nfgenmsgLength then .error "a transaction marker with no header"
  else
    let resId := networkPair (m.payload.drop 2)
    if resId ≠ subsystem then
      .error s!"a transaction marker for netlink subsystem {resId} rather than nftables"
    else .ok ()

/-- `audit_message`. -/
def auditMessage (m : Netlink.Message) : Except String Unit :=
  let owner := m.header.kind / 256
  let kind := m.header.kind % 256
  if owner = 0 then
    if kind ≠ batchBegin ∧ kind ≠ batchEnd then
      .error s!"a netlink message of type {kind} with no subsystem"
    else markerIsNftables m
  else if owner ≠ subsystem then
    .error s!"a message for netlink subsystem {owner}, which is not nftables"
  else if m.payload.length < nfgenmsgLength then
    .error (s!"a message payload of {m.payload.length} bytes cannot hold a " ++
      s!"{nfgenmsgLength}-byte family struct")
  else
    let area := m.payload.drop nfgenmsgLength
    match kind with
    | 1 | 4 | 7 => .ok ()
    | 0 | 2 => tableMustBeOurs e area 1
    | 3 => do
      tableMustBeOurs e area 1
      chainMustBeOurs e area 3
    | 6 => do
      tableMustBeOurs e area 1
      chainMustBeOurs e area 2
    | kind => .error s!"an nftables message of type {kind}, which netcfgd does not write"

/-- `ncfg_nft_writes_only_our_table`. -/
def writesOnlyOurTable (bytes : Bytes) : Except String Unit := do
  (messagesOf e bytes).1.forM (auditMessage e)
  match (messagesOf e bytes).2 with
  | some said => .error said
  | none => .ok ()

end Audit

/-! ## The whole of it -/

/-- `ncfg_nft_batch_t`. -/
structure Batch where
  lastAcked : UInt32
  nextSeq : UInt32
  empty : Bool := false
  deriving DecidableEq, Repr

/-- What a call leaves : the buffer, what it says of the batch, and the failure if it is one. -/
structure Replaced where
  out : Buf
  batch : Batch
  failure : Option String := none

/-- What is checked before anything is built. -/
def checkAll (uplinks : List String) (forwards : List ForwardRule) : Except String Unit := do
  uplinks.forM validUplink
  forwards.forM fun f => (describeForward host f).map fun _ => ()

/-- `ncfg_nft_build_replace_all`. -/
def replaceAll (out : Buf) (firstSeq : UInt32) (tableExists : Bool) (uplinks : List String)
    (firewall : Option FirewallTree) (forwards : List ForwardRule) : Replaced :=
  match checkAll host uplinks forwards with
  | .error why => ⟨out, ⟨firstSeq, firstSeq, false⟩, some why⟩
  | .ok () =>
    if tableExists = false ∧ uplinks = [] ∧ firewall = none ∧ forwards = [] then
      ⟨out, ⟨firstSeq, firstSeq, true⟩, none⟩
    else
      match transactionOf host firstSeq tableExists uplinks firewall forwards with
      | .error why => ⟨out, ⟨firstSeq, firstSeq, false⟩, some why⟩
      | .ok d =>
        match writesOnlyOurTable host.endian d.transaction.bytes with
        | .error why => ⟨out, ⟨firstSeq, firstSeq, false⟩, some why⟩
        | .ok () =>
          let out := out.add d.transaction.bytes
          if out.failed then
            ⟨out, ⟨firstSeq, firstSeq, false⟩,
              some s!"a {d.transaction.bytes.length}-byte transaction did not fit its buffer"⟩
          else ⟨out, ⟨d.lastAcked, d.seq, false⟩, none⟩

end Netcfgd.Nft
