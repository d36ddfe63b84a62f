import Netcfgd.JsonWrite
import Netcfgd.NetlinkSocket
import Netcfgd.Nftables

/-!
# The framing of a netlink request

`src/sys/wire.c`, both ways, on a machine of either byte order : attributes and requests as they
are put in a buffer (`attrPut`, `attrPutNested`, `buildRequest`), and the walks that read them back
(`attrsFind`, `messagesOf`). The buffer is the one of `src/base/buf.c`.

What was put is what is read. A buffer that has not failed holds the attributes put in it
(`Holds`), a search finds the first of its kind (`attrsFind_areaBytes`), and a walk over requests
gives their messages and nothing after them (`messagesOf_frames`).
-/

namespace Netcfgd.Wire

open Nftables (Bytes Endian networkOrder hostOrder length_networkOrder length_hostOrder)
open Netlink (Header Message WireStep littleEndian align4 headerLength)
open Json (Buf)

/-! ## The machine's numbers -/

/-- `read_u16` and `read_u32` : the number some bytes hold, in the machine's order. -/
def native (e : Endian) (bytes : Bytes) : ℕ :=
  match e with
  | .little => littleEndian bytes
  | .big => littleEndian bytes.reverse

/-- The longest value an attribute's sixteen bits of length leave room for. -/
def valueMax : ℕ := 0xffff - 4

/-- `ncfg_wire_attr_t`. -/
structure Attr where
  kind : ℕ
  value : Bytes
  deriving DecidableEq, Repr

/-- What one step of `ncfg_wire_attrs_next` finds. -/
inductive AttrStep
  | ended
  | bad (said : String)
  | ok (attr : Attr) (rest : Bytes)

/-- An attribute's kind and its length are sixteen bits. -/
structure Attr.Fits (a : Attr) : Prop where
  kind : a.kind < 2 ^ 16
  value : a.value.length ≤ valueMax

/-- The fields of a message's header fit it, and its length is the message's. -/
structure Framed (m : Message) : Prop where
  len : m.header.len = headerLength + m.payload.length
  small : m.header.len < 2 ^ 32
  kind : m.header.kind < 2 ^ 16
  flags : m.header.flags < 2 ^ 16
  seq : m.header.seq < 2 ^ 32
  pid : m.header.pid < 2 ^ 32
  aligned : 4 ∣ m.payload.length

theorem littleEndian_append (a b : Bytes) :
    littleEndian (a ++ b) = littleEndian a + 256 ^ a.length * littleEndian b := by
  induction a with
  | nil => simp [littleEndian]
  | cons c a ih =>
    rw [List.cons_append, littleEndian, littleEndian, ih, List.length_cons, Nat.pow_succ]
    ring

theorem littleEndian_networkOrder :
    ∀ {width n : ℕ}, n < 256 ^ width → littleEndian (networkOrder width n).reverse = n
  | 0, n, h => by
    rw [Nat.pow_zero, Nat.lt_one_iff] at h
    rw [h]
    rfl
  | width + 1, n, h => by
    have hpos : 0 < 256 ^ width := Nat.pow_pos (by decide)
    have htop : n / 256 ^ width < 256 := Nat.div_lt_of_lt_mul (by rwa [Nat.pow_succ] at h)
    rw [networkOrder, List.reverse_cons, littleEndian_append,
      littleEndian_networkOrder (Nat.mod_lt n hpos), List.length_reverse, length_networkOrder,
      littleEndian, littleEndian, UInt8.toNat_ofNat_of_lt' htop, Nat.mul_zero, Nat.add_zero]
    exact Nat.mod_add_div n (256 ^ width)

theorem native_hostOrder (e : Endian) {width n : ℕ} (h : n < 256 ^ width) :
    native e (hostOrder e width n) = n := by
  cases e <;> exact littleEndian_networkOrder h

/-! ## Putting attributes -/

/-- `DEFAULT_LIMIT`, what a buffer may hold that was given no limit. -/
def defaultLimit : ℕ := 16 * 1024 * 1024

/-- `ncfg_buf_init` with no limit. -/
def newBuf : Buf := { limit := defaultLimit }

/-- `failed = 1`. -/
def giveUp (out : Buf) : Buf := { out with failed := true }

def padding (length : ℕ) : Bytes := List.replicate (align4 length - length) 0

/-- `pad_to_align`. -/
def padToAlign (out : Buf) : Buf :=
  if out.failed then out else out.add (padding out.bytes.length)

/-- `ncfg_wire_attr_put`. -/
def attrPut (e : Endian) (kind : ℕ) (value : Bytes) (out : Buf) : Buf :=
  if out.failed then out
  else if valueMax < value.length then giveUp out
  else
    padToAlign
      (((out.add (hostOrder e 2 (4 + value.length))).add (hostOrder e 2 kind)).add value)

/-- `NLA_F_NESTED`. -/
def nlaFNested : ℕ := 0x8000

/-- `ncfg_wire_attr_put_nested`. -/
def attrPutNested (e : Endian) (kind : ℕ) (nest : Buf) (out : Buf) : Buf :=
  if out.failed then out
  else if nest.failed then giveUp out
  else attrPut e (kind ||| nlaFNested) nest.bytes out

/-- A value that does not fit leaves the bytes as they were. -/
theorem bytes_of_failed {out : Buf} {bytes : Bytes} (h : (out.add bytes).failed = true) :
    (out.add bytes).bytes = out.bytes := by
  unfold Buf.add at h ⊢
  split_ifs at h ⊢ with hnothing hlimit
  · rfl
  · rfl
  · exact absurd (.inr h) hnothing

/-! ## Reading attributes -/

/-- `ncfg_wire_attrs_next`. The top two bits of a kind are flags. -/
def attrsNext (e : Endian) (area : Bytes) : AttrStep :=
  if area.length = 0 then .ended
  else if area.length < 4 then
    .bad s!"an attribute area ends {area.length} bytes into a 4-byte header"
  else
    let len := native e (area.take 2)
    let kind := native e ((area.drop 2).take 2) % 0x4000
    if len < 4 then
      .bad (s!"an attribute says it is {len} bytes long, shorter than the 4-byte header it " ++
        "sits in")
    else if area.length < len then
      .bad s!"an attribute of type {kind} claims {len} bytes and the message holds {area.length}"
    else
      .ok ⟨kind, (area.take len).drop 4⟩ (area.drop (min (align4 len) area.length))

/-- The search through an area, at most `fuel` attributes of it : where there is none of the kind,
what stopped it when that is not the end. -/
def attrsFindFrom (e : Endian) (kind : ℕ) : ℕ → Bytes → Except (Option String) Attr
  | 0, _ => .error none
  | fuel + 1, area =>
    match attrsNext e area with
    | .ended => .error none
    | .bad said => .error (some said)
    | .ok attr rest => if attr.kind = kind then .ok attr else attrsFindFrom e kind fuel rest

/-- `ncfg_wire_attrs_find`. -/
def attrsFind (e : Endian) (kind : ℕ) (area : Bytes) : Except (Option String) Attr :=
  attrsFindFrom e kind area.length area

/-! ## What is put is found -/

def Attr.bytes (e : Endian) (a : Attr) : Bytes :=
  hostOrder e 2 (4 + a.value.length) ++ hostOrder e 2 a.kind ++ a.value ++
    padding (4 + a.value.length)

def areaBytes (e : Endian) (attrs : List Attr) : Bytes := attrs.flatMap (Attr.bytes e)

theorem align4_dvd (n : ℕ) : 4 ∣ align4 n := ⟨(n + 3) / 4, by rw [align4, Nat.mul_comm]⟩

theorem le_align4 (n : ℕ) : n ≤ align4 n := by
  unfold align4
  omega

theorem add_align4 {m : ℕ} (h : 4 ∣ m) (n : ℕ) : align4 (m + n) = m + align4 n := by
  unfold align4
  omega

theorem align4_of_dvd {n : ℕ} (h : 4 ∣ n) : align4 n = n := by
  unfold align4
  omega

theorem padding_add {m : ℕ} (h : 4 ∣ m) (n : ℕ) : padding (m + n) = padding n := by
  rw [padding, padding, add_align4 h, Nat.add_sub_add_left]

@[simp] theorem length_padding (n : ℕ) : (padding n).length = align4 n - n := by simp [padding]

theorem Attr.length_bytes (e : Endian) (a : Attr) :
    (a.bytes e).length = align4 (4 + a.value.length) := by
  have := le_align4 (4 + a.value.length)
  simp only [Attr.bytes, List.length_append, length_hostOrder, length_padding]
  omega

theorem dvd_length_areaBytes (e : Endian) (attrs : List Attr) :
    4 ∣ (areaBytes e attrs).length := by
  induction attrs with
  | nil => exact ⟨0, rfl⟩
  | cons a attrs ih =>
    rw [areaBytes, List.flatMap_cons, List.length_append, Attr.length_bytes]
    exact (align4_dvd _).add ih

theorem attrsNext_bytes (e : Endian) {a : Attr} (h : a.Fits) (rest : Bytes) :
    attrsNext e (a.bytes e ++ rest) = .ok ⟨a.kind % 0x4000, a.value⟩ rest := by
  have hvalue : a.value.length ≤ 65531 := h.value
  have hlen : (a.bytes e ++ rest).length = align4 (4 + a.value.length) + rest.length := by
    rw [List.length_append, Attr.length_bytes]
  have hle := le_align4 (4 + a.value.length)
  have hread : a.bytes e ++ rest = hostOrder e 2 (4 + a.value.length) ++ (hostOrder e 2 a.kind ++
      (a.value ++ (padding (4 + a.value.length) ++ rest))) := by
    simp [Attr.bytes, List.append_assoc]
  have htake : native e ((a.bytes e ++ rest).take 2) = 4 + a.value.length := by
    rw [hread, List.take_left' (length_hostOrder ..), native_hostOrder e (by omega)]
  have hkind : native e (((a.bytes e ++ rest).drop 2).take 2) = a.kind := by
    rw [hread, List.drop_left' (length_hostOrder ..), List.take_left' (length_hostOrder ..),
      native_hostOrder e h.kind]
  have hbody : ((a.bytes e ++ rest).take (4 + a.value.length)).drop 4 = a.value := by
    have hfront : (hostOrder e 2 (4 + a.value.length) ++ hostOrder e 2 a.kind).length = 4 := by
      simp
    rw [List.drop_take, hread, ← List.append_assoc, List.drop_left' hfront, Nat.add_sub_cancel_left,
      List.take_left' rfl]
  unfold attrsNext
  rw [if_neg (by omega), if_neg (by omega)]
  dsimp only
  rw [htake, hkind, if_neg (by omega), if_neg (by omega), hbody, Nat.min_eq_left (by omega),
    List.drop_left' (Attr.length_bytes e a)]

theorem attrsFind_areaBytes (e : Endian) (kind : ℕ) {attrs : List Attr}
    (h : ∀ a ∈ attrs, a.Fits) :
    attrsFind e kind (areaBytes e attrs) =
      match attrs.find? fun a => a.kind % 0x4000 = kind with
      | some a => .ok ⟨a.kind % 0x4000, a.value⟩
      | none => .error none := by
  suffices hfuel : ∀ fuel, (areaBytes e attrs).length ≤ fuel →
      attrsFindFrom e kind fuel (areaBytes e attrs) =
        match attrs.find? fun a => a.kind % 0x4000 = kind with
        | some a => .ok ⟨a.kind % 0x4000, a.value⟩
        | none => .error none from hfuel _ le_rfl
  induction attrs with
  | nil =>
    intro fuel _
    cases fuel <;> rfl
  | cons a attrs ih =>
    intro fuel hfuel
    have hcons : areaBytes e (a :: attrs) = a.bytes e ++ areaBytes e attrs := rfl
    rw [hcons, List.length_append, Attr.length_bytes] at hfuel
    have := le_align4 (4 + a.value.length)
    cases fuel with
    | zero => omega
    | succ fuel =>
      rw [hcons, attrsFindFrom, attrsNext_bytes e (h a List.mem_cons_self)]
      by_cases hkind : a.kind % 0x4000 = kind
      · simp [hkind]
      · simp only [hkind, if_false, List.find?_cons, decide_false]
        exact ih (fun b hb => h b (List.mem_cons_of_mem _ hb)) fuel (by omega)

/-- What a buffer holds that has not failed : some attributes and nothing else. -/
def Holds (e : Endian) (out : Buf) (attrs : List Attr) : Prop :=
  out.failed = false → out.bytes = areaBytes e attrs ∧ ∀ a ∈ attrs, a.Fits

theorem holds_newBuf (e : Endian) : Holds e newBuf [] :=
  fun _ => ⟨rfl, by simp⟩

theorem padToAlign_ok {out : Buf} (h : (padToAlign out).failed = false) :
    out.failed = false ∧ (padToAlign out).bytes = out.bytes ++ padding out.bytes.length := by
  unfold padToAlign at h ⊢
  split_ifs at h ⊢ with hfailed
  · rw [h] at hfailed
    cases hfailed
  · obtain ⟨hout, hadd⟩ := Buf.add_ok h
    exact ⟨hout, by rw [hadd]⟩

theorem Holds.put {e : Endian} {out : Buf} {attrs : List Attr} (h : Holds e out attrs)
    {kind : ℕ} (hkind : kind < 2 ^ 16) (value : Bytes) :
    Holds e (attrPut e kind value out) (attrs ++ [⟨kind, value⟩]) := by
  intro hok
  unfold attrPut at hok ⊢
  split_ifs at hok ⊢ with hfailed hlong
  · rw [hok] at hfailed
    cases hfailed
  · cases hok
  · obtain ⟨hpad, hbytes⟩ := padToAlign_ok hok
    obtain ⟨hadd, hvalue⟩ := Buf.add_ok hpad
    obtain ⟨hadd', hkinds⟩ := Buf.add_ok hadd
    obtain ⟨hout, hlen⟩ := Buf.add_ok hadd'
    obtain ⟨hholds, hfits⟩ := h hout
    have hdvd := dvd_length_areaBytes e attrs
    constructor
    · rw [hbytes, hvalue, hkinds, hlen, hholds, areaBytes, areaBytes, List.flatMap_append,
        List.flatMap_singleton, Attr.bytes]
      simp only [List.append_assoc, List.append_cancel_left_eq, List.length_append,
        length_hostOrder]
      rw [← areaBytes, padding_add hdvd, ← Nat.add_assoc]
    · intro a ha
      rcases List.mem_append.1 ha with ha | ha
      · exact hfits a ha
      · obtain rfl := List.mem_singleton.1 ha
        exact ⟨hkind, Nat.not_lt.1 hlong⟩

theorem Holds.putNested {e : Endian} {out : Buf} {attrs : List Attr} (h : Holds e out attrs)
    {kind : ℕ} (hkind : kind < 2 ^ 15) (nest : Buf) :
    Holds e (attrPutNested e kind nest out) (attrs ++ [⟨kind ||| nlaFNested, nest.bytes⟩]) := by
  intro hok
  have hflag : kind ||| nlaFNested < 2 ^ 16 :=
    Nat.or_lt_two_pow (hkind.trans (by decide)) (by decide)
  unfold attrPutNested at hok ⊢
  split_ifs at hok ⊢ with hfailed hnest
  · rw [hok] at hfailed
    cases hfailed
  · cases hok
  · exact h.put hflag nest.bytes hok

/-! ## Requests -/

/-- `ncfg_wire_header_decode`, of sixteen bytes or more. -/
def headerDecode (e : Endian) (bytes : Bytes) : Header where
  len := native e (bytes.take 4)
  kind := native e ((bytes.drop 4).take 2)
  flags := native e ((bytes.drop 6).take 2)
  seq := native e ((bytes.drop 8).take 4)
  pid := native e ((bytes.drop 12).take 4)

/-- `ncfg_wire_header_encode`. -/
def headerEncode (e : Endian) (header : Header) (out : Buf) : Buf :=
  ((((out.add (hostOrder e 4 header.len)).add (hostOrder e 2 header.kind)).add
    (hostOrder e 2 header.flags)).add (hostOrder e 4 header.seq)).add (hostOrder e 4 header.pid)

def bytesOf (part : Option Buf) : Bytes := (part.map Buf.bytes).getD []

/-- `ncfg_wire_build_request`. -/
def buildRequest (e : Endian) (kind flags seq : ℕ) (body attrs : Option Buf) (out : Buf) :
    Except String Buf :=
  if body.any Buf.failed then .error "the body of this request was never built"
  else if attrs.any Buf.failed then .error "the attributes of this request were never built"
  else
    let total := headerLength + align4 (bytesOf body).length + (bytesOf attrs).length
    if 0xffffffff < total then
      .error s!"a netlink message length is 32 bits and this request needs {total} bytes"
    else
      let out := headerEncode e ⟨total, kind, flags, seq, 0⟩ out
      let out := if bytesOf body = [] then out else padToAlign (out.add (bytesOf body))
      let out := out.add (bytesOf attrs)
      if out.failed then .error s!"a {total}-byte request did not fit its buffer" else .ok out

/-- `ncfg_wire_messages_next`. -/
def messagesNext (e : Endian) (bytes : Bytes) : WireStep :=
  if bytes.length = 0 then .ended
  else if bytes.length < headerLength then
    .bad ("a netlink buffer ends " ++ toString bytes.length ++ " bytes into a 16-byte header")
  else
    let header := headerDecode e bytes
    if header.len < headerLength then
      .bad ("a netlink message says it is " ++ toString header.len ++
        " bytes long, shorter than the 16-byte header it sits in")
    else if bytes.length < header.len then
      .bad ("a netlink message claims " ++ toString header.len ++ " bytes and the buffer holds " ++
        toString bytes.length)
    else
      .ok ⟨header, (bytes.take header.len).drop headerLength⟩
        (bytes.drop (min (align4 header.len) bytes.length))

/-- The walk over some bytes, at most `fuel` messages of them : its messages, and what stopped it
when that is not the end. -/
def walk (e : Endian) : ℕ → Bytes → List Message × Option String
  | 0, _ => ([], none)
  | fuel + 1, bytes =>
    match messagesNext e bytes with
    | .ended => ([], none)
    | .bad said => ([], some said)
    | .ok message rest => (message :: (walk e fuel rest).1, (walk e fuel rest).2)

/-- The messages of a buffer, and what stops the reading. -/
def messagesOf (e : Endian) (bytes : Bytes) : List Message × Option String :=
  walk e bytes.length bytes

/-! ## What is sent is walked -/

def frame (e : Endian) (m : Message) : Bytes :=
  hostOrder e 4 m.header.len ++ hostOrder e 2 m.header.kind ++ hostOrder e 2 m.header.flags ++
    hostOrder e 4 m.header.seq ++ hostOrder e 4 m.header.pid ++ m.payload

theorem length_frame (e : Endian) (m : Message) :
    (frame e m).length = headerLength + m.payload.length := by
  simp only [frame, headerLength, List.length_append, length_hostOrder]

theorem field_eq {front field back : Bytes} {offset width : ℕ} (hfront : front.length = offset)
    (hfield : field.length = width) :
    ((front ++ field ++ back).drop offset).take width = field := by
  rw [List.append_assoc, List.drop_left' hfront, List.take_left' hfield]

theorem headerDecode_frame (e : Endian) {m : Message} (h : Framed m) (rest : Bytes) :
    headerDecode e (frame e m ++ rest) = m.header := by
  set len := hostOrder e 4 m.header.len
  set kind := hostOrder e 2 m.header.kind
  set flags := hostOrder e 2 m.header.flags
  set seq := hostOrder e 4 m.header.seq
  set pid := hostOrder e 4 m.header.pid
  have hlen : len.length = 4 := length_hostOrder ..
  have hkind : kind.length = 2 := length_hostOrder ..
  have hflags : flags.length = 2 := length_hostOrder ..
  have hseq : seq.length = 4 := length_hostOrder ..
  have hpid : pid.length = 4 := length_hostOrder ..
  have hframe : frame e m ++ rest =
      len ++ kind ++ flags ++ seq ++ pid ++ (m.payload ++ rest) := by
    rw [frame, List.append_assoc _ m.payload]
  have h0 : (frame e m ++ rest).take 4 = len := by
    rw [hframe]
    simp only [List.append_assoc]
    exact List.take_left' hlen
  have h4 : ((frame e m ++ rest).drop 4).take 2 = kind := by
    rw [hframe, List.append_assoc (len ++ kind ++ flags ++ seq),
      List.append_assoc (len ++ kind ++ flags), List.append_assoc (len ++ kind)]
    exact field_eq hlen hkind
  have h6 : ((frame e m ++ rest).drop 6).take 2 = flags := by
    rw [hframe, List.append_assoc (len ++ kind ++ flags ++ seq),
      List.append_assoc (len ++ kind ++ flags)]
    exact field_eq (by simp [hlen, hkind]) hflags
  have h8 : ((frame e m ++ rest).drop 8).take 4 = seq := by
    rw [hframe, List.append_assoc (len ++ kind ++ flags ++ seq)]
    exact field_eq (by simp [hlen, hkind, hflags]) hseq
  have h12 : ((frame e m ++ rest).drop 12).take 4 = pid := by
    rw [hframe]
    exact field_eq (by simp [hlen, hkind, hflags, hseq]) hpid
  rw [headerDecode, h0, h4, h6, h8, h12, native_hostOrder e h.small, native_hostOrder e h.kind,
    native_hostOrder e h.flags, native_hostOrder e h.seq, native_hostOrder e h.pid]

theorem messagesNext_frame (e : Endian) {m : Message} (h : Framed m) (rest : Bytes) :
    messagesNext e (frame e m ++ rest) = .ok m rest := by
  have hlen : (frame e m ++ rest).length = m.header.len + rest.length := by
    rw [List.length_append, length_frame, h.len]
  have hpos : headerLength ≤ m.header.len := h.len ▸ Nat.le_add_right ..
  have hheader : 0 < headerLength := by decide
  have halign : align4 m.header.len = m.header.len :=
    align4_of_dvd (h.len ▸ (by decide : 4 ∣ headerLength).add h.aligned)
  have hframe : (frame e m).length = m.header.len := by rw [length_frame, h.len]
  unfold messagesNext
  rw [if_neg (by omega), if_neg (by omega)]
  dsimp only
  rw [headerDecode_frame e h, if_neg (by omega), if_neg (by omega), halign,
    Nat.min_eq_left (by omega), List.drop_left' hframe, List.take_left' hframe, frame,
    List.drop_left' (by simp [headerLength])]

theorem messagesOf_frames (e : Endian) {ms : List Message} (h : ∀ m ∈ ms, Framed m) :
    messagesOf e (ms.flatMap (frame e)) = (ms, none) := by
  suffices hfuel : ∀ fuel, (ms.flatMap (frame e)).length ≤ fuel →
      walk e fuel (ms.flatMap (frame e)) = (ms, none) from hfuel _ le_rfl
  induction ms with
  | nil =>
    intro fuel _
    cases fuel <;> rfl
  | cons m ms ih =>
    intro fuel hfuel
    rw [List.flatMap_cons, List.length_append, length_frame, headerLength] at hfuel
    cases fuel with
    | zero => omega
    | succ fuel =>
      rw [List.flatMap_cons, walk, messagesNext_frame e (h m List.mem_cons_self)]
      simp only
      rw [ih (fun m' hm' => h m' (List.mem_cons_of_mem _ hm')) fuel (by omega)]

theorem headerEncode_ok {e : Endian} {header : Header} {out : Buf}
    (h : (headerEncode e header out).failed = false) :
    out.failed = false ∧ (headerEncode e header out).bytes = out.bytes ++
      (hostOrder e 4 header.len ++ hostOrder e 2 header.kind ++ hostOrder e 2 header.flags ++
        hostOrder e 4 header.seq ++ hostOrder e 4 header.pid) := by
  unfold headerEncode at h ⊢
  obtain ⟨h4, hpid⟩ := Buf.add_ok h
  obtain ⟨h3, hseq⟩ := Buf.add_ok h4
  obtain ⟨h2, hflags⟩ := Buf.add_ok h3
  obtain ⟨h1, hkind⟩ := Buf.add_ok h2
  obtain ⟨h0, hlen⟩ := Buf.add_ok h1
  refine ⟨h0, ?_⟩
  rw [hpid, hseq, hflags, hkind, hlen]
  simp [List.append_assoc]

def requestOf (kind flags seq : ℕ) (body attrs : Bytes) : Message where
  header := ⟨headerLength + align4 body.length + attrs.length, kind, flags, seq, 0⟩
  payload := body ++ padding body.length ++ attrs

theorem buildRequest_ok {e : Endian} {kind flags seq : ℕ} {body attrs : Option Buf}
    {out out' : Buf} (h : buildRequest e kind flags seq body attrs out = .ok out')
    (haligned : 4 ∣ out.bytes.length) :
    out.failed = false ∧ out'.failed = false ∧
      attrs.any Buf.failed = false ∧
      headerLength + align4 (bytesOf body).length + (bytesOf attrs).length < 2 ^ 32 ∧
      out'.bytes = out.bytes ++
        frame e (requestOf kind flags seq (bytesOf body) (bytesOf attrs)) := by
  unfold buildRequest at h
  dsimp only at h
  split_ifs at h with hbody hattrs hlong hfailed hempty hfailed
  · obtain rfl := Except.ok.inj h
    obtain ⟨hadd, hbytes⟩ := Buf.add_ok (Bool.eq_false_of_not_eq_true hempty)
    obtain ⟨hout, hheader⟩ := headerEncode_ok hadd
    refine ⟨hout, Bool.eq_false_of_not_eq_true hempty, Bool.eq_false_of_not_eq_true hattrs,
      by omega, ?_⟩
    rw [hbytes, hheader, hfailed]
    simp [frame, requestOf, padding, align4, List.append_assoc]
  · obtain rfl := Except.ok.inj h
    obtain ⟨hadd, hbytes⟩ := Buf.add_ok (Bool.eq_false_of_not_eq_true hfailed)
    obtain ⟨hpad, hpadded⟩ := padToAlign_ok hadd
    obtain ⟨hbodied, hwith⟩ := Buf.add_ok hpad
    obtain ⟨hout, hheader⟩ := headerEncode_ok hbodied
    refine ⟨hout, Bool.eq_false_of_not_eq_true hfailed, Bool.eq_false_of_not_eq_true hattrs,
      by omega, ?_⟩
    rw [hbytes]
    dsimp only
    rw [hpadded, hwith]
    dsimp only
    rw [hheader]
    simp only [List.length_append, length_hostOrder, frame, requestOf, List.append_assoc,
      List.append_cancel_left_eq]
    rw [show out.bytes.length + (4 + (2 + (2 + (4 + (4 + (bytesOf body).length))))) =
      out.bytes.length + 16 + (bytesOf body).length by omega,
      padding_add (haligned.add (by decide))]

end Netcfgd.Wire
