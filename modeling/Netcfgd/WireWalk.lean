import Netcfgd.PaddedRecords
import Netcfgd.Wire

/-!
# What is walked over on the wire

The walks of `src/sys/wire.c` over attributes and over messages, of any bytes whatever, as readers
of padded records (`attrs`, `messages`), and the trees of attributes that `ncfg_wire_attr_put` and
`ncfg_wire_attr_put_nested` build, each nest in a buffer of its own (`Tree`). What is built is what
is walked over, nests and all (`each_read`).
-/

namespace Netcfgd.Wire

open Nftables (Bytes Endian)
open Netlink (Message align4 headerLength)
open Json (Buf)
open Records (Next Reader)

/-- Attributes to be put, where a nest is built in a buffer that holds so many bytes. -/
inductive Tree
  | value (kind : Fin (2 ^ 14)) (bytes : Bytes)
  | nest (kind : Fin (2 ^ 14)) (limit : ℕ) (children : List Tree)

/-! ## The readers -/

theorem drop_min {α : Type*} (text : List α) (n : ℕ) :
    text.drop (min n text.length) = text.drop n := by
  rcases Nat.le_total n text.length with h | h
  · rw [Nat.min_eq_left h]
  · rw [Nat.min_eq_right h, List.drop_eq_nil_of_le h, List.drop_length]

/-- What `ncfg_wire_attrs_next` finds next. -/
def nextAttr (e : Endian) (area : Bytes) : Next UInt8 Attr :=
  match attrsNext e area with
  | .ended => .ended
  | .bad _ => .bad
  | .ok attr rest => .ok attr rest

/-- The walk over attributes. -/
def attrs (e : Endian) : Reader UInt8 Attr where
  unit := 4
  header := 4
  size area := native e (area.take 2)
  next := nextAttr e
  value := Attr.value
  unit_pos := by decide
  unit_le := by decide
  size_append back h := by rw [List.take_append_of_le_length (by omega)]
  next_nil := rfl
  next_bad {area} hnil h := by
    have hpos := List.length_pos_iff.2 hnil
    unfold nextAttr attrsNext
    rw [if_neg (by omega)]
    by_cases hshort : area.length < 4
    · rw [if_pos hshort]
    · dsimp only
      rw [if_neg hshort]
      by_cases hlow : native e (area.take 2) < 4
      · rw [if_pos hlow]
      · rw [if_neg hlow, if_pos (by omega)]
  next_ok {area} hheader hsize hlong := by
    refine ⟨⟨native e ((area.drop 2).take 2) % 0x4000, (area.take _).drop 4⟩, ?_, rfl⟩
    unfold nextAttr attrsNext
    dsimp only
    rw [if_neg (by omega), if_neg (by omega), if_neg (by omega), if_neg (by omega), drop_min]
    rfl

/-- What `ncfg_wire_messages_next` finds next. -/
def nextMessage (e : Endian) (bytes : Bytes) : Next UInt8 Message :=
  match messagesNext e bytes with
  | .ended => .ended
  | .bad _ => .bad
  | .ok message rest => .ok message rest

/-- The walk over messages. -/
def messages (e : Endian) : Reader UInt8 Message where
  unit := 4
  header := headerLength
  size bytes := native e (bytes.take 4)
  next := nextMessage e
  value := Message.payload
  unit_pos := by decide
  unit_le := by decide
  size_append back h := by
    rw [List.take_append_of_le_length (h ▸ (by decide : 4 ≤ headerLength))]
  next_nil := rfl
  next_bad {bytes} hnil h := by
    have hpos := List.length_pos_iff.2 hnil
    unfold nextMessage messagesNext headerDecode
    rw [if_neg (by omega)]
    by_cases hshort : bytes.length < headerLength
    · rw [if_pos hshort]
    · dsimp only
      rw [if_neg hshort]
      by_cases hlow : native e (bytes.take 4) < headerLength
      · rw [if_pos hlow]
      · rw [if_neg hlow, if_pos (by omega)]
  next_ok {bytes} hheader hsize hlong := by
    refine ⟨⟨headerDecode e bytes, (bytes.take _).drop headerLength⟩, ?_, rfl⟩
    have hpos : 0 < headerLength := by decide
    unfold nextMessage messagesNext headerDecode
    dsimp only
    rw [if_neg (by omega), if_neg (by omega), if_neg (by omega), if_neg (by omega), drop_min]
    rfl

/-! ## Trees of attributes -/

mutual

def Tree.put (e : Endian) : Tree → Buf → Buf
  | .value kind bytes, out => attrPut e kind bytes out
  | .nest kind limit children, out =>
    attrPutNested e kind (putAll e children { limit := limit }) out

def putAll (e : Endian) : List Tree → Buf → Buf
  | [], out => out
  | t :: ts, out => putAll e ts (t.put e out)

end

/-- Some trees, put into a buffer. -/
def built (e : Endian) (limit : ℕ) (trees : List Tree) : Buf := putAll e trees { limit := limit }

/-- A walk of these bytes hands out these attributes and comes to the end. -/
def WalksTo (e : Endian) (bytes : Bytes) (found : List Attr) : Prop :=
  ((attrs e).wholeWalk bytes).outcome = some .ended ∧
    ((attrs e).wholeWalk bytes).found.map Prod.snd = found

mutual

/-- An attribute read back is the tree that was put, and so is what a walk of a nest hands out. -/
def Tree.IsRead (e : Endian) : Tree → Attr → Prop
  | .value kind bytes, a => a = ⟨kind, bytes⟩
  | .nest kind limit children, a =>
    a = ⟨kind, (built e limit children).bytes⟩ ∧
      ∃ found, WalksTo e a.value found ∧ EachRead e children found

/-- The attributes found are those put, one by one. -/
def EachRead (e : Endian) : List Tree → List Attr → Prop
  | [], found => found = []
  | t :: ts, found => ∃ a later, found = a :: later ∧ t.IsRead e a ∧ EachRead e ts later

end

def Tree.attr (e : Endian) : Tree → Attr
  | .value kind bytes => ⟨kind, bytes⟩
  | .nest kind limit children => ⟨kind ||| nlaFNested, (built e limit children).bytes⟩

/-- A tree as a walk finds it. -/
def Tree.seen (e : Endian) : Tree → Attr
  | .value kind bytes => ⟨kind, bytes⟩
  | .nest kind limit children => ⟨kind, (built e limit children).bytes⟩

def Tree.Built (e : Endian) : Tree → Prop
  | .value .. => True
  | .nest _ limit children => (built e limit children).failed = false

theorem Tree.seen_attr (e : Endian) (t : Tree) :
    (⟨(t.attr e).kind % 0x4000, (t.attr e).value⟩ : Attr) = t.seen e := by
  cases t with
  | value kind bytes =>
    have := kind.isLt
    simp only [Tree.attr, Tree.seen, Attr.mk.injEq, and_true]
    exact Nat.mod_eq_of_lt this
  | nest kind limit children =>
    have := kind.isLt
    have hflag : (kind ||| nlaFNested) % 2 ^ 14 = kind % 2 ^ 14 ||| nlaFNested % 2 ^ 14 :=
      Nat.or_mod_two_pow ..
    have hnone : nlaFNested % 2 ^ 14 = 0 := by decide
    simp only [Tree.attr, Tree.seen, Attr.mk.injEq, and_true]
    rw [hnone, Nat.or_zero, Nat.mod_eq_of_lt this] at hflag
    exact hflag

theorem Holds.putTree {e : Endian} {out : Buf} {before : List Attr} (h : Holds e out before)
    (t : Tree) : Holds e (t.put e out) (before ++ [t.attr e]) := by
  cases t with
  | value kind bytes => exact h.put (kind.isLt.trans (by decide)) bytes
  | nest kind limit children => exact h.putNested (kind.isLt.trans (by decide)) _

theorem Holds.putAll {e : Endian} : ∀ {trees : List Tree} {out : Buf} {before : List Attr},
    Holds e out before → Holds e (putAll e trees out) (before ++ trees.map (Tree.attr e))
  | [], _, _, h => by simpa [Wire.putAll] using h
  | t :: ts, _, _, h => by
    have hlater : Holds e (Wire.putAll e ts (t.put e _)) _ := (h.putTree t).putAll
    rwa [List.append_assoc] at hlater

theorem holds_built (e : Endian) (limit : ℕ) (trees : List Tree) :
    Holds e (built e limit trees) (trees.map (Tree.attr e)) := by
  have hnone : Holds e { limit := limit } [] := fun _ => ⟨rfl, by simp⟩
  exact hnone.putAll

theorem built_of_put {e : Endian} {t : Tree} {out : Buf} (h : (t.put e out).failed = false) :
    out.failed = false ∧ t.Built e := by
  have hout : out.failed = false := by
    by_contra hfailed
    rw [Bool.not_eq_false] at hfailed
    cases t <;> simp [Tree.put, attrPut, attrPutNested, hfailed] at h
  refine ⟨hout, ?_⟩
  cases t with
  | value => trivial
  | nest kind limit children =>
    show (putAll e children { limit := limit }).failed = false
    by_contra hfailed
    rw [Bool.not_eq_false] at hfailed
    simp [Tree.put, attrPutNested, hout, hfailed, giveUp] at h

/-- Where the buffer does not fail, every tree in it is built. -/
theorem built_of_putAll {e : Endian} : ∀ {trees : List Tree} {out : Buf},
    (putAll e trees out).failed = false → out.failed = false ∧ ∀ t ∈ trees, t.Built e
  | [], _, h => ⟨h, by simp⟩
  | t :: ts, out, h => by
    have hrest : (putAll e ts (t.put e out)).failed = false := h
    obtain ⟨hput, hlater⟩ := built_of_putAll hrest
    obtain ⟨hout, hfirst⟩ := built_of_put hput
    exact ⟨hout, List.forall_mem_cons.2 ⟨hfirst, hlater⟩⟩

/-! ## What is built is walked over -/

theorem walk_areaBytes (e : Endian) : ∀ {put : List Attr} {calls place : ℕ},
    (∀ a ∈ put, a.Fits) → (areaBytes e put).length < calls * 4 →
      ((attrs e).walk calls place (areaBytes e put)).outcome = some .ended ∧
        ((attrs e).walk calls place (areaBytes e put)).found.map Prod.snd =
          put.map fun a => ⟨a.kind % 0x4000, a.value⟩
  | _, 0, _, _, hcalls => by omega
  | [], _ + 1, _, _, _ => ⟨rfl, rfl⟩
  | a :: put, calls + 1, place, hfits, hcalls => by
    have hnext : (attrs e).next (areaBytes e (a :: put)) =
        .ok ⟨a.kind % 0x4000, a.value⟩ (areaBytes e put) := by
      show nextAttr e (a.bytes e ++ areaBytes e put) = _
      rw [nextAttr, attrsNext_bytes e (hfits a List.mem_cons_self)]
    have hcons : areaBytes e (a :: put) = a.bytes e ++ areaBytes e put := rfl
    have := le_align4 (4 + a.value.length)
    rw [hcons, List.length_append, Attr.length_bytes] at hcalls
    rw [Reader.walk_ok hnext, List.map_cons, List.map_cons]
    obtain ⟨hended, hfound⟩ := @walk_areaBytes e put calls
      (place + ((areaBytes e (a :: put)).length - (areaBytes e put).length))
      (fun b hb => hfits b (List.mem_cons_of_mem _ hb)) (by omega)
    exact ⟨hended, by rw [hfound]⟩

/-- A walk of what is built finds its trees, and ends. -/
theorem walksTo_built {e : Endian} {limit : ℕ} {trees : List Tree}
    (h : (built e limit trees).failed = false) :
    WalksTo e (built e limit trees).bytes (trees.map (Tree.seen e)) := by
  obtain ⟨hbytes, hfits⟩ := holds_built e limit trees h
  have hseen : trees.map (Tree.seen e) =
      (trees.map (Tree.attr e)).map fun a => ⟨a.kind % 0x4000, a.value⟩ := by
    simp [List.map_map, Function.comp_def, Tree.seen_attr]
  rw [hbytes, hseen]
  exact @walk_areaBytes e _ (_ / 4 + 1) 0 hfits (by omega)

mutual

theorem Tree.isRead {e : Endian} : ∀ {t : Tree}, t.Built e → t.IsRead e (t.seen e)
  | .value .., _ => rfl
  | .nest .., h =>
    ⟨rfl, _, walksTo_built h, each_read (built_of_putAll h).2⟩

/-- Trees that are built are read one by one. -/
theorem each_read {e : Endian} : ∀ {ts : List Tree}, (∀ t ∈ ts, t.Built e) →
    EachRead e ts (ts.map (Tree.seen e))
  | [], _ => rfl
  | t :: _, h => ⟨_, _, rfl, Tree.isRead (h t List.mem_cons_self),
    each_read fun t' ht' => h t' (List.mem_cons_of_mem _ ht')⟩

end

def firstOf (kind : ℕ) (found : List Attr) : Except (Option String) Attr :=
  match found.find? fun a => a.kind = kind with
  | some a => .ok a
  | none => .error none

/-- Looking for a kind finds the first tree of it. -/
theorem attrsFind_built {e : Endian} {limit : ℕ} {trees : List Tree} (kind : ℕ)
    (h : (built e limit trees).failed = false) :
    attrsFind e kind (built e limit trees).bytes = firstOf kind (trees.map (Tree.seen e)) := by
  obtain ⟨hbytes, hfits⟩ := holds_built e limit trees h
  have hfind : ∀ put : List Attr, firstOf kind (put.map fun a => ⟨a.kind % 0x4000, a.value⟩) =
      match put.find? fun a => a.kind % 0x4000 = kind with
      | some a => .ok ⟨a.kind % 0x4000, a.value⟩
      | none => .error none := by
    intro put
    rw [firstOf, List.find?_map]
    simp only [Function.comp_def]
    cases put.find? _ <;> rfl
  have hseen : trees.map (Tree.seen e) =
      (trees.map (Tree.attr e)).map fun a => ⟨a.kind % 0x4000, a.value⟩ := by
    simp [List.map_map, Function.comp_def, Tree.seen_attr]
  rw [hbytes, hseen]
  exact (attrsFind_areaBytes e kind hfits).trans (hfind _).symm

/-- What is built of attributes is what a walk over it hands out, the first of a kind what a search
finds. A walk over any bytes whatever ends, inside of them, after the longest of their parts that is
records. -/
theorem walks_read_and_end (e : Endian) :
    (∀ limit trees, (built e limit trees).failed = false →
      ∃ found, WalksTo e (built e limit trees).bytes found ∧ EachRead e trees found ∧
        ∀ kind, attrsFind e kind (built e limit trees).bytes = firstOf kind found) ∧
    (∀ bytes, (attrs e).WalksWell bytes) ∧ ∀ bytes, (messages e).WalksWell bytes :=
  ⟨fun _ trees h => ⟨trees.map (Tree.seen e), walksTo_built h, each_read (built_of_putAll h).2,
    fun kind => attrsFind_built kind h⟩, (attrs e).walksWell, (messages e).walksWell⟩

/-- A link of a kind of its own, as it is asked for : a name, a nest with another in it, and a value
that is padded. -/
def asked : List Tree :=
  [.value 3 (Json.asciis "wg0" ++ [0]),
    .nest 18 4096 [.value 1 (Json.asciis "wireguard"), .nest 2 4096 [.value 5 [1, 2]]],
    .value 4 [7]]

theorem asked_read : ∃ found, WalksTo .big (built .big 4096 asked).bytes found ∧
    EachRead .big asked found ∧ attrsFind .big 4 (built .big 4096 asked).bytes = .ok ⟨4, [7]⟩ := by
  obtain ⟨found, hwalk, hread, -⟩ :=
    (walks_read_and_end .big).1 4096 asked (by decide +kernel)
  exact ⟨found, hwalk, hread, by decide +kernel⟩

end Netcfgd.Wire
