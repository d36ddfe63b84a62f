import Netcfgd.NftTransaction

/-!
# A transaction is one batch on one table

A call that succeeds appends one batch, or nothing where there is nothing to remove and nothing to
make ; a call that fails leaves the buffer's bytes as they were (`replaceAll_whole_or_absent`).
A batch is `Whole` when it is what stands between its two markers, the delete of the old table
first, and then what fills the new one.

Each message is one step (`Draft.send_holds`), and what a loop sends is what its steps send
(`Fills.foldlM`). That the walk of the audit gives back the messages as they were built is
`Wire.messagesOf_frames`, so the audit refuses none of them (`audit_of_whole`).
-/

namespace Netcfgd.Nft

open Compile Schedule Nftables Wire
open Json (Buf)
open Netlink (Message)

/-! ## What a message writes -/

def areaOf (m : Message) : Bytes := m.payload.drop nfgenmsgLength

def Write.chainKind : Write → Option ℕ
  | .newChain => some 3
  | .newRule => some 2
  | .newTable | .delTable => none

/-- A message of a kind, to netcfgd's table and in a chain of it. -/
structure Writes (e : Endian) (w : Write) (m : Message) : Prop where
  kind : m.header.kind = nftMessage w.number
  header : nfgenmsgLength ≤ m.payload.length
  table : readName e (areaOf m) 1 = .ok (cBytes nftTable)
  chain : ∀ k ∈ w.chainKind, ∃ name ∈ ourChains, readName e (areaOf m) k = .ok (cBytes name)

structure Marks (kind : ℕ) (m : Message) : Prop where
  kind : m.header.kind = kind
  subsystem : markerIsNftables m = .ok ()

/-- One batch : a begin, the delete of the old table where there is one, what fills the new one
from its making on, and an end. -/
def Whole (e : Endian) (tableExists : Bool) (ms : List Message) : Prop :=
  ∃ opened deleted filled closed, ms = opened :: (deleted ++ filled) ++ [closed] ∧
    Marks batchBegin opened ∧ Marks batchEnd closed ∧
    deleted.length = tableExists.toNat ∧ (∀ m ∈ deleted, Writes e .delTable m) ∧
    (∀ m ∈ filled, ∃ w, w ≠ .delTable ∧ Writes e w m) ∧
    ∀ first ∈ filled.head?, Writes e .newTable first

/-- A draft holds some messages and nothing else. -/
structure Draft.Holds (e : Endian) (d : Draft) (ms : List Message) : Prop where
  failed : d.transaction.failed = false
  bytes : d.transaction.bytes = ms.flatMap (frame e)
  framed : ∀ m ∈ ms, Framed m

section Messages

variable {e : Endian}

theorem tableMustBeOurs_of_writes {w : Write} {m : Message} (h : Writes e w m) :
    tableMustBeOurs e (areaOf m) 1 = .ok () := by
  rw [tableMustBeOurs, h.table]
  exact if_pos rfl

theorem chainMustBeOurs_of_writes {w : Write} {m : Message} (h : Writes e w m) {k : ℕ}
    (hk : w.chainKind = some k) : chainMustBeOurs e (areaOf m) k = .ok () := by
  obtain ⟨name, hname, hread⟩ := h.chain k hk
  rw [chainMustBeOurs, hread]
  exact if_pos (List.mem_map_of_mem hname)

theorem audit_of_writes {w : Write} {m : Message} (h : Writes e w m) :
    auditMessage e m = .ok () := by
  have hlong := Nat.not_lt.2 h.header
  have htable := tableMustBeOurs_of_writes h
  unfold auditMessage
  rw [h.kind]
  cases w with
  | newTable => simpa [nftMessage, Write.number, subsystem, hlong, areaOf] using htable
  | delTable => simpa [nftMessage, Write.number, subsystem, hlong, areaOf] using htable
  | newChain =>
    have hchain := chainMustBeOurs_of_writes h rfl
    simp only [areaOf] at htable hchain
    simp [nftMessage, Write.number, subsystem, hlong, htable, hchain, bind, Except.bind]
  | newRule =>
    have hchain := chainMustBeOurs_of_writes h rfl
    simp only [areaOf] at htable hchain
    simp [nftMessage, Write.number, subsystem, hlong, htable, hchain, bind, Except.bind]

theorem audit_of_marks {kind : ℕ} {m : Message} (hkind : kind = batchBegin ∨ kind = batchEnd)
    (h : Marks kind m) : auditMessage e m = .ok () := by
  have hmarker := h.subsystem
  unfold auditMessage
  rw [h.kind]
  rcases hkind with rfl | rfl <;> simpa [batchBegin, batchEnd] using hmarker

/-- Whole messages pass the audit. -/
theorem audit_of_whole {tableExists : Bool} {ms : List Message} (h : Whole e tableExists ms) :
    ∀ m ∈ ms, auditMessage e m = .ok () := by
  obtain ⟨opened, deleted, filled, closed, rfl, hopened, hclosed, -, hdeleted, hfilled, -⟩ := h
  intro m hm
  simp only [List.cons_append, List.mem_cons, List.mem_append, List.not_mem_nil, or_false] at hm
  rcases hm with rfl | (hm | hm) | rfl
  · exact audit_of_marks (.inl rfl) hopened
  · exact audit_of_writes (hdeleted m hm)
  · obtain ⟨w, -, hw⟩ := hfilled m hm
    exact audit_of_writes hw
  · exact audit_of_marks (.inr rfl) hclosed

end Messages

/-! ## The names in the attributes -/

section Names

variable (e : Endian)

def nameAttr (kind : ℕ) (name : String) : Attr := ⟨kind, cBytes name ++ [0]⟩

theorem attrString_name (kind : ℕ) {name : String} (h : name ∈ nftTable :: ourChains) :
    Utf8.attrString nameMax (nameAttr kind name).value = .ok (cBytes name) := by
  simp only [nftTable, ourChains, List.mem_cons, List.not_mem_nil, or_false] at h
  rcases h with rfl | rfl | rfl | rfl | rfl | rfl <;> rfl

theorem readName_table {attrs : List Attr} (h : ∀ a ∈ nameAttr 1 nftTable :: attrs, a.Fits) :
    readName e (areaBytes e (nameAttr 1 nftTable :: attrs)) 1 = .ok (cBytes nftTable) := by
  rw [readName, attrsFind_areaBytes e 1 h, List.find?_cons_of_pos (by simp [nameAttr])]
  exact attrString_name 1 List.mem_cons_self

theorem readName_chain {k : ℕ} (hk : k = 2 ∨ k = 3) {name : String} (hname : name ∈ ourChains)
    {attrs : List Attr} (h : ∀ a ∈ nameAttr 1 nftTable :: nameAttr k name :: attrs, a.Fits) :
    readName e (areaBytes e (nameAttr 1 nftTable :: nameAttr k name :: attrs)) k =
      .ok (cBytes name) := by
  have hread := attrString_name k (List.mem_cons_of_mem nftTable hname)
  rw [readName, attrsFind_areaBytes e k h, List.find?_cons_of_neg, List.find?_cons_of_pos]
  · rcases hk with rfl | rfl <;> exact hread
  · rcases hk with rfl | rfl <;> simp [nameAttr]
  · rcases hk with rfl | rfl <;> simp [nameAttr]

theorem holds_tableAttrs : Holds e (tableAttrs e) [nameAttr 1 nftTable] :=
  (holds_newBuf e).put (by decide) _

theorem holds_baseChain (name : String) (hook priority : ℕ) (type : String) (policy : Option ℕ) :
    ∃ attrs, Holds e (baseChain e name hook priority type policy)
      (nameAttr 1 nftTable :: nameAttr 3 name :: attrs) := by
  have hattrs := ((((holds_newBuf e).put (by decide : 1 < 2 ^ 16) (cBytes nftTable ++ [0])).put
    (by decide : 3 < 2 ^ 16) (cBytes name ++ [0])).putNested (by decide : 4 < 2 ^ 15)
    (putBe32 e 2 priority (putBe32 e 1 hook newBuf))).put (by decide : 7 < 2 ^ 16)
    (cBytes type ++ [0])
  cases policy with
  | none => exact ⟨_, hattrs⟩
  | some policy => exact ⟨_, hattrs.put (by decide : 5 < 2 ^ 16) (networkOrder 4 policy)⟩

theorem holds_ruleAttrs (chain : String) (rule : KernelRule) :
    ∃ attrs, Holds e (ruleAttrs e chain rule)
      (nameAttr 1 nftTable :: nameAttr 2 chain :: attrs) := by
  have hattrs := (((holds_newBuf e).put (by decide : 1 < 2 ^ 16) (cBytes nftTable ++ [0])).put
    (by decide : 2 < 2 ^ 16) (cBytes chain ++ [0])).putNested (by decide : 4 < 2 ^ 15)
    (expressions e rule.exprs)
  unfold ruleAttrs
  cases rule.comment with
  | none => exact ⟨_, hattrs⟩
  | some comment => exact ⟨_, hattrs.put (by decide : 7 < 2 ^ 16) (userdata comment).bytes⟩

end Names

/-! ## One message -/

section Draft

variable {e : Endian}

variable {ms : List Message}

theorem dvd_length_frames (h : ∀ m ∈ ms, Framed m) :
    4 ∣ (ms.flatMap (frame e)).length := by
  induction ms with
  | nil => exact ⟨0, rfl⟩
  | cons m ms ih =>
    rw [List.flatMap_cons, List.length_append, length_frame]
    exact ((by decide : 4 ∣ Netlink.headerLength).add (h m List.mem_cons_self).aligned).add
      (ih fun m' hm' => h m' (List.mem_cons_of_mem _ hm'))

theorem bytesOf_nfgenmsg (family : UInt8) (resId : ℕ) :
    bytesOf (some (newBuf.add (nfgenmsg family resId))) = nfgenmsg family resId := rfl

theorem length_nfgenmsg (family : UInt8) (resId : ℕ) : (nfgenmsg family resId).length = 4 := rfl

theorem Draft.Holds.request {d : Draft} (h : d.Holds e ms) {kind flags : ℕ}
    (hkind : kind < 2 ^ 16) (hflags : flags < 2 ^ 16) {seq : UInt32} {family : UInt8} {resId : ℕ}
    {attrs : Option Buf} {out : Buf} (haligned : 4 ∣ (bytesOf attrs).length)
    (hok : buildRequest e kind flags seq.toNat (some (newBuf.add (nfgenmsg family resId))) attrs
      d.transaction = .ok out) {seq' lastAcked : UInt32} :
    ∃ m : Message, Draft.Holds e ⟨out, seq', lastAcked⟩ (ms ++ [m]) ∧ m.header.kind = kind ∧
      m.payload = nfgenmsg family resId ++ bytesOf attrs := by
  have hdvd : 4 ∣ d.transaction.bytes.length := h.bytes ▸ dvd_length_frames h.framed
  obtain ⟨-, hout, -, hsmall, hbytes⟩ := buildRequest_ok hok hdvd
  rw [bytesOf_nfgenmsg] at hbytes hsmall
  have hpayload : (requestOf kind flags seq.toNat (nfgenmsg family resId) (bytesOf attrs)).payload =
      nfgenmsg family resId ++ bytesOf attrs := by
    simp [requestOf, padding, length_nfgenmsg, Netlink.align4]
  refine ⟨requestOf kind flags seq.toNat (nfgenmsg family resId) (bytesOf attrs),
    ⟨hout, ?_, ?_⟩, rfl, hpayload⟩
  · rw [hbytes, h.bytes, List.flatMap_append, List.flatMap_singleton]
  · intro m hm
    rcases List.mem_append.1 hm with hm | hm
    · exact h.framed m hm
    · obtain rfl := List.mem_singleton.1 hm
      refine ⟨?_, hsmall, hkind, hflags, seq.toNat_lt, Nat.two_pow_pos 32, ?_⟩
      · rw [hpayload, List.length_append]
        simp [requestOf, length_nfgenmsg, Netlink.align4, Nat.add_assoc]
      · rw [hpayload, List.length_append, length_nfgenmsg]
        exact (by decide : 4 ∣ 4).add haligned

theorem Draft.marker_holds {d d' : Draft} (h : d.Holds e ms) {kind : ℕ}
    (hkind : kind < 2 ^ 16) (hok : d.marker e kind = .ok d') :
    ∃ m : Message, d'.Holds e (ms ++ [m]) ∧ Marks kind m := by
  obtain ⟨out, hout, hd⟩ := bind_eq_ok.1 hok
  obtain rfl := Except.ok.inj hd
  obtain ⟨m, hm, hmkind, hpayload⟩ := h.request hkind (by decide) ⟨0, rfl⟩ hout
  refine ⟨m, hm, hmkind, ?_⟩
  have hmarker : nfgenmsg nfprotoUnspec subsystem ++ bytesOf none = [0, 0, 0, 10] := by decide
  rw [markerIsNftables, hpayload, hmarker]
  decide

theorem Draft.send_holds {d d' : Draft} (h : d.Holds e ms) {w : Write}
    {flags : ℕ} (hflags : flags < 2 ^ 16) {attrs : Buf} {as : List Attr}
    (hattrs : Wire.Holds e attrs as) (hok : d.send e w flags attrs = .ok d') :
    ∃ m : Message, d'.Holds e (ms ++ [m]) ∧ m.header.kind = nftMessage w.number ∧
      m.payload = nfgenmsg nfprotoInet 0 ++ areaBytes e as ∧ ∀ a ∈ as, a.Fits := by
  obtain ⟨out, hout, hd⟩ := bind_eq_ok.1 hok
  obtain rfl := Except.ok.inj hd
  have hdvd : 4 ∣ d.transaction.bytes.length := h.bytes ▸ dvd_length_frames h.framed
  obtain ⟨-, -, hfailed, -, -⟩ := buildRequest_ok hout hdvd
  obtain ⟨hbytes, hfits⟩ := hattrs hfailed
  have hkind : nftMessage w.number < 2 ^ 16 := by cases w <;> decide
  have hall : nlmFRequest ||| (nlmFAck ||| flags) < 2 ^ 16 :=
    Nat.or_lt_two_pow (by decide) (Nat.or_lt_two_pow (by decide) hflags)
  obtain ⟨m, hm, hmkind, hpayload⟩ := h.request hkind hall
    (by rw [bytesOf, Option.map_some, Option.getD_some, hbytes]; exact dvd_length_areaBytes e as)
    hout
  refine ⟨m, hm, hmkind, ?_, hfits⟩
  rw [hpayload, bytesOf, Option.map_some, Option.getD_some, hbytes]

theorem areaOf_payload {m : Message} {area : Bytes}
    (h : m.payload = nfgenmsg nfprotoInet 0 ++ area) : areaOf m = area := by
  rw [areaOf, h]
  exact List.drop_left' (length_nfgenmsg ..)

theorem header_le_payload {m : Message} {area : Bytes}
    (h : m.payload = nfgenmsg nfprotoInet 0 ++ area) : nfgenmsgLength ≤ m.payload.length := by
  rw [h, List.length_append, length_nfgenmsg]
  exact Nat.le_add_right ..

theorem Draft.send_table {d d' : Draft} (h : d.Holds e ms) {w : Write}
    (hw : w.chainKind = none) {flags : ℕ} (hflags : flags < 2 ^ 16)
    (hok : d.send e w flags (tableAttrs e) = .ok d') :
    ∃ m, d'.Holds e (ms ++ [m]) ∧ Writes e w m := by
  obtain ⟨m, hm, hkind, hpayload, hfits⟩ := Draft.send_holds h hflags (holds_tableAttrs e) hok
  refine ⟨m, hm, hkind, header_le_payload hpayload, ?_, ?_⟩
  · rw [areaOf_payload hpayload]
    exact readName_table e hfits
  · rw [hw]
    simp

theorem Draft.send_chain {d d' : Draft} (h : d.Holds e ms) {w : Write} {k : ℕ}
    (hw : w.chainKind = some k) {name : String} (hname : name ∈ ourChains) {flags : ℕ}
    (hflags : flags < 2 ^ 16) {attrs : Buf}
    (hattrs : ∃ rest, Wire.Holds e attrs (nameAttr 1 nftTable :: nameAttr k name :: rest))
    (hok : d.send e w flags attrs = .ok d') :
    ∃ m, d'.Holds e (ms ++ [m]) ∧ Writes e w m := by
  obtain ⟨rest, hrest⟩ := hattrs
  obtain ⟨m, hm, hkind, hpayload, hfits⟩ := Draft.send_holds h hflags hrest hok
  have hk : k = 2 ∨ k = 3 := by
    cases w <;> simp_all [Write.chainKind]
  refine ⟨m, hm, hkind, header_le_payload hpayload, ?_, ?_⟩
  · rw [areaOf_payload hpayload]
    exact readName_table e hfits
  · intro k' hk'
    obtain rfl : k = k' := Option.some.inj (hw.symm.trans hk')
    rw [areaOf_payload hpayload]
    exact ⟨name, hname, readName_chain e hk hname hfits⟩

end Draft

/-! ## What the loops send -/

section Loops

variable {e : Endian}

def Fills (e : Endian) (d d' : Draft) : Prop :=
  ∀ ms, d.Holds e ms → ∃ sent, d'.Holds e (ms ++ sent) ∧
    ∀ m ∈ sent, ∃ w, w ≠ .delTable ∧ Writes e w m

theorem Fills.refl (d : Draft) : Fills e d d :=
  fun ms h => ⟨[], by rwa [List.append_nil], by simp⟩

theorem Fills.trans {d₁ d₂ d₃ : Draft} (h : Fills e d₁ d₂) (h' : Fills e d₂ d₃) :
    Fills e d₁ d₃ := by
  intro ms hms
  obtain ⟨sent, hsent, hwrites⟩ := h ms hms
  obtain ⟨sent', hsent', hwrites'⟩ := h' _ hsent
  refine ⟨sent ++ sent', by rwa [← List.append_assoc], fun m hm => ?_⟩
  rcases List.mem_append.1 hm with hm | hm
  · exact hwrites m hm
  · exact hwrites' m hm

theorem Fills.foldlM {α σ : Type} {draft : σ → Draft} {f : σ → α → Except String σ}
    (hstep : ∀ s a s', f s a = .ok s' → Fills e (draft s) (draft s')) :
    ∀ {l : List α} {s s' : σ}, l.foldlM f s = .ok s' → Fills e (draft s) (draft s')
  | [], s, s', h => by
    obtain rfl := Except.ok.inj h
    exact Fills.refl _
  | a :: l, s, s', h => by
    rw [List.foldlM_cons] at h
    obtain ⟨s₁, hs₁, hrest⟩ := bind_eq_ok.1 h
    exact (hstep s a s₁ hs₁).trans (Fills.foldlM hstep hrest)

theorem fills_of_send {d d' : Draft} {w : Write} (hw : w ≠ .delTable)
    (h : ∀ ms, d.Holds e ms → ∃ m, d'.Holds e (ms ++ [m]) ∧ Writes e w m) : Fills e d d' := by
  intro ms hms
  obtain ⟨m, hm, hwrites⟩ := h ms hms
  refine ⟨[m], hm, fun m' hm' => ?_⟩
  obtain rfl := List.mem_singleton.1 hm'
  exact ⟨w, hw, hwrites⟩

theorem fills_rule {d d' : Draft} {flags : ℕ} (hflags : flags < 2 ^ 16) {chain : String}
    (hchain : chain ∈ ourChains) {rule : KernelRule}
    (h : d.send e .newRule flags (ruleAttrs e chain rule) = .ok d') : Fills e d d' :=
  fills_of_send (by decide) fun _ hms =>
    Draft.send_chain hms rfl hchain hflags (holds_ruleAttrs e chain rule) h

theorem fills_chain {d d' : Draft} {name : String} (hname : name ∈ ourChains) {hook priority : ℕ}
    {type : String} {policy : Option ℕ}
    (h : d.send e .newChain nlmFCreate (baseChain e name hook priority type policy) = .ok d') :
    Fills e d d' :=
  fills_of_send (by decide) fun _ hms =>
    Draft.send_chain hms rfl hname (by decide) (holds_baseChain e name hook priority type policy) h

end Loops

/-! ## The loops of the builder -/

section Builder

variable {host : Host}

theorem hook_mem_ourChains (hook : ChainName) : hook.text ∈ ourChains := by
  cases hook <;> decide

theorem forwardChain_mem_ourChains (kind : ForwardKind) : kind.chain ∈ ourChains := by
  cases kind <;> simp [ForwardKind.chain, ForwardKind.isHairpin, ourChains]

theorem fills_combinationMessage {hook : ChainName} {r : FirewallRule} {comment : String}
    {written written' : Draft × ℕ} {c : Combination}
    (h : combinationMessage host hook r comment written c = .ok written') :
    Fills host.endian written.1 written'.1 := by
  unfold combinationMessage at h
  obtain ⟨mixed, -, h⟩ := bind_eq_ok.1 h
  cases mixed with
  | true =>
    obtain rfl := Except.ok.inj h
    exact Fills.refl _
  | false =>
    obtain ⟨exprs, -, h⟩ := bind_eq_ok.1 h
    obtain ⟨d, hd, h⟩ := bind_eq_ok.1 h
    obtain rfl := Except.ok.inj h
    exact fills_rule (by decide) (hook_mem_ourChains hook) hd

variable {d d' : Draft}

theorem fills_ruleMessages {hook : ChainName} {r : FirewallRule}
    (h : ruleMessages host hook d r = .ok d') : Fills host.endian d d' := by
  unfold ruleMessages at h
  cases hpieces : r.pieces host with
  | none =>
    rw [hpieces] at h
    cases h
  | some pieces =>
    rw [hpieces] at h
    dsimp only at h
    split_ifs at h with hcount
    obtain ⟨comment, -, h⟩ := bind_eq_ok.1 h
    obtain ⟨written, hwritten, h⟩ := bind_eq_ok.1 h
    have hfills : Fills host.endian (d, 0).1 written.1 :=
      Fills.foldlM (fun _ _ _ => fills_combinationMessage) hwritten
    split_ifs at h with hnone
    · cases h
    · obtain rfl := Except.ok.inj h
      exact hfills

theorem fills_chainMessages {fw : FirewallTree} {hook : ChainName}
    (h : chainMessages host fw d hook = .ok d') : Fills host.endian d d' := by
  obtain ⟨d₁, hd₁, h⟩ := bind_eq_ok.1 h
  have hchain : Fills host.endian d d₁ := fills_chain (hook_mem_ourChains hook) hd₁
  exact hchain.trans (@Fills.foldlM _ _ _ id _ (fun _ _ _ => fills_ruleMessages) _ _ _ h)

theorem fills_forwardMessage {postrouting : Bool} {f : ForwardRule}
    (h : forwardMessage host postrouting d f = .ok d') : Fills host.endian d d' := by
  unfold forwardMessage at h
  split_ifs at h with hkind
  · obtain rfl := Except.ok.inj h
    exact Fills.refl _
  · obtain ⟨⟨parts, comment⟩, -, h⟩ := bind_eq_ok.1 h
    exact fills_rule (by decide) (forwardChain_mem_ourChains f.kind) h

theorem fills_uplinkMessage {uplink : String} (h : uplinkMessage host d uplink = .ok d') :
    Fills host.endian d d' :=
  fills_rule (by decide) (by decide) h

theorem fills_chainWhere {needed : Bool} {name : String} (hname : name ∈ ourChains)
    {hook priority : ℕ} {type : String} {policy : Option ℕ}
    (h : chainWhere host needed (baseChain host.endian name hook priority type policy) d = .ok d') :
    Fills host.endian d d' := by
  unfold chainWhere at h
  split_ifs at h with hneeded
  · exact fills_chain hname h
  · obtain rfl := Except.ok.inj h
    exact Fills.refl _

variable {firewall : Option FirewallTree}

theorem fills_filterMessages (h : filterMessages host firewall d = .ok d') :
    Fills host.endian d d' := by
  cases firewall with
  | none =>
    obtain rfl := Except.ok.inj h
    exact Fills.refl _
  | some fw => exact @Fills.foldlM _ _ _ id _ (fun _ _ _ => fills_chainMessages) _ _ _ h

theorem fills_fillTable {uplinks : List String} {forwards : List ForwardRule}
    (h : fillTable host uplinks firewall forwards d = .ok d') : Fills host.endian d d' := by
  obtain ⟨d₁, h₁, h⟩ := bind_eq_ok.1 h
  obtain ⟨d₂, h₂, h⟩ := bind_eq_ok.1 h
  obtain ⟨d₃, h₃, h⟩ := bind_eq_ok.1 h
  obtain ⟨d₄, h₄, h⟩ := bind_eq_ok.1 h
  obtain ⟨d₅, h₅, h⟩ := bind_eq_ok.1 h
  have hnat : Fills host.endian d d₁ := fills_chainWhere (by decide) h₁
  have huplinks : Fills host.endian d₁ d₂ :=
    @Fills.foldlM _ _ _ id _ (fun _ _ _ => fills_uplinkMessage) _ _ _ h₂
  have hreturns : Fills host.endian d₂ d₃ :=
    @Fills.foldlM _ _ _ id _ (fun _ _ _ => fills_forwardMessage) _ _ _ h₃
  have hpre : Fills host.endian d₃ d₄ := fills_chainWhere (by decide) h₄
  have htranslations : Fills host.endian d₄ d₅ :=
    @Fills.foldlM _ _ _ id _ (fun _ _ _ => fills_forwardMessage) _ _ _ h₅
  exact hnat.trans (huplinks.trans (hreturns.trans (hpre.trans
    (htranslations.trans (fills_filterMessages h)))))

theorem deleteTable_holds {tableExists : Bool} {ms : List Message}
    (hms : d.Holds host.endian ms) (h : deleteTable host tableExists d = .ok d') :
    ∃ deleted, d'.Holds host.endian (ms ++ deleted) ∧ deleted.length = tableExists.toNat ∧
      ∀ m ∈ deleted, Writes host.endian .delTable m := by
  cases tableExists with
  | true =>
    obtain ⟨m, hm, hwrites⟩ := Draft.send_table hms rfl (by decide) h
    refine ⟨[m], hm, rfl, fun m' hm' => ?_⟩
    rwa [List.mem_singleton.1 hm']
  | false =>
    obtain rfl := Except.ok.inj h
    exact ⟨[], by rwa [List.append_nil], rfl, by simp⟩

theorem makeTable_holds {uplinks : List String} {forwards : List ForwardRule} {ms : List Message}
    (hms : d.Holds host.endian ms) (h : makeTable host uplinks firewall forwards d = .ok d') :
    ∃ filled, d'.Holds host.endian (ms ++ filled) ∧
      (∀ m ∈ filled, ∃ w, w ≠ .delTable ∧ Writes host.endian w m) ∧
      ∀ first ∈ filled.head?, Writes host.endian .newTable first := by
  unfold makeTable at h
  split_ifs at h with hasked
  · obtain ⟨d₁, h₁, h⟩ := bind_eq_ok.1 h
    obtain ⟨table, htable, hmade⟩ := Draft.send_table hms rfl (by decide) h₁
    obtain ⟨sent, hsent, hfills⟩ := fills_fillTable h _ htable
    refine ⟨table :: sent, by rwa [List.append_assoc] at hsent, ?_, ?_⟩
    · intro m hm
      rcases List.mem_cons.1 hm with rfl | hm
      · exact ⟨.newTable, by decide, hmade⟩
      · exact hfills m hm
    · rintro first hfirst
      obtain rfl := Option.some.inj hfirst
      exact hmade
  · obtain rfl := Except.ok.inj h
    exact ⟨[], by rwa [List.append_nil], by simp, by simp⟩

/-- A transaction that is built is whole. -/
theorem transactionOf_whole {firstSeq : UInt32} {tableExists : Bool} {uplinks : List String}
    {forwards : List ForwardRule}
    (h : transactionOf host firstSeq tableExists uplinks firewall forwards = .ok d) :
    ∃ ms, d.Holds host.endian ms ∧ Whole host.endian tableExists ms := by
  obtain ⟨d₁, h₁, h⟩ := bind_eq_ok.1 h
  obtain ⟨d₂, h₂, h⟩ := bind_eq_ok.1 h
  obtain ⟨d₃, h₃, h⟩ := bind_eq_ok.1 h
  have hnothing : Draft.Holds host.endian { seq := firstSeq, lastAcked := firstSeq } [] :=
    ⟨rfl, rfl, by simp⟩
  obtain ⟨opened, hopened, hbegin⟩ := Draft.marker_holds hnothing (by decide) h₁
  obtain ⟨deleted, hdeleted, hlength, hwrites⟩ := deleteTable_holds hopened h₂
  obtain ⟨filled, hfilled, hfills, hfirst⟩ := makeTable_holds hdeleted h₃
  obtain ⟨closed, hclosed, hend⟩ := Draft.marker_holds hfilled (by decide) h
  refine ⟨_, hclosed, opened, deleted, filled, closed, ?_, hbegin, hend, hlength, hwrites, hfills,
    hfirst⟩
  simp

end Builder

/-! ## The call -/

section Call

variable (host : Host)

/-- A draft reads back as the messages it holds. -/
theorem audit_of_holds {e : Endian} {d : Draft} {ms : List Message} (h : d.Holds e ms) :
    messagesOf e d.transaction.bytes = (ms, none) := by
  rw [h.bytes]
  exact messagesOf_frames e h.framed

/-- What a call with nothing to remove and nothing to make leaves. -/
def NothingToDo (tableExists : Bool) (uplinks : List String) (firewall : Option FirewallTree)
    (forwards : List ForwardRule) : Prop :=
  tableExists = false ∧ uplinks = [] ∧ firewall = none ∧ forwards = []

/-- Some bytes are one batch, and every message of it passes the audit. -/
def OneBatch (e : Endian) (tableExists : Bool) (bytes : Bytes) : Prop :=
  writesOnlyOurTable e bytes = .ok () ∧
    ∃ ms, messagesOf e bytes = (ms, none) ∧ Whole e tableExists ms ∧
      ∀ m ∈ ms, auditMessage e m = .ok ()

/-- A call that succeeds appends one whole batch to the buffer, and nothing where there is nothing
to remove and nothing to make ; a call that fails leaves the bytes of the buffer as they were. -/
theorem replaceAll_whole_or_absent (out : Buf) (firstSeq : UInt32) (tableExists : Bool)
    (uplinks : List String) (firewall : Option FirewallTree) (forwards : List ForwardRule) :
    let after := replaceAll host out firstSeq tableExists uplinks firewall forwards
    (after.failure = none →
      (NothingToDo tableExists uplinks firewall forwards ∧ after.batch.empty = true ∧
        after.out = out) ∨
      (¬NothingToDo tableExists uplinks firewall forwards ∧ after.batch.empty = false ∧
        ∃ bytes, after.out.bytes = out.bytes ++ bytes ∧
          OneBatch host.endian tableExists bytes)) ∧
    (after.failure ≠ none → after.out.bytes = out.bytes) := by
  dsimp only
  unfold replaceAll
  cases hcheck : checkAll host uplinks forwards with
  | error why => exact ⟨nofun, fun _ => rfl⟩
  | ok =>
    dsimp only
    split_ifs with hnothing
    · exact ⟨fun _ => .inl ⟨hnothing, rfl, rfl⟩, fun h => absurd rfl h⟩
    · cases hbuilt : transactionOf host firstSeq tableExists uplinks firewall forwards with
      | error why => exact ⟨nofun, fun _ => rfl⟩
      | ok d =>
        dsimp only
        cases haudit : writesOnlyOurTable host.endian d.transaction.bytes with
        | error why => exact ⟨nofun, fun _ => rfl⟩
        | ok =>
          dsimp only
          split_ifs with hfailed
          · exact ⟨nofun, fun _ => bytes_of_failed hfailed⟩
          · obtain ⟨ms, hms, hwhole⟩ := transactionOf_whole hbuilt
            obtain ⟨-, hadd⟩ := Buf.add_ok (Bool.eq_false_of_not_eq_true hfailed)
            refine ⟨fun _ => .inr ⟨hnothing, rfl, _, ?_, haudit, ms, audit_of_holds hms, hwhole,
              audit_of_whole hwhole⟩, fun h => absurd rfl h⟩
            rw [hadd]

end Call

theorem width_of_none (family : Family) (_ : List Char) (bytes : Bytes)
    (h : none = some bytes) : bytes.length = family.width := by
  cases h

def plainHost : Host where
  endian := .little
  offset := 0
  pton := fun _ _ => none
  pton_width := @width_of_none
  ntop := fun _ _ => ""
  sha256Hex := fun _ => ""

/-- With no table there and nothing asked for, a call succeeds and there is no batch. -/
theorem nothing_is_no_batch :
    ¬∀ (host : Host) (out : Buf) (firstSeq : UInt32) (tableExists : Bool) (uplinks : List String)
      (firewall : Option FirewallTree) (forwards : List ForwardRule),
      (replaceAll host out firstSeq tableExists uplinks firewall forwards).failure = none →
        ∃ bytes, (replaceAll host out firstSeq tableExists uplinks firewall forwards).out.bytes =
            out.bytes ++ bytes ∧ OneBatch host.endian tableExists bytes := by
  intro h
  obtain ⟨bytes, hbytes, -, ms, hms, hwhole, -⟩ := h plainHost newBuf 1 false [] none [] rfl
  have hnone : bytes = [] := hbytes.symm
  rw [hnone] at hms
  have hempty : ms = [] := (Prod.mk.inj hms).1.symm
  obtain ⟨opened, deleted, filled, closed, hall, -⟩ := hwhole
  rw [hempty] at hall
  simp at hall

end Netcfgd.Nft
