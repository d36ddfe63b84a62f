import Netcfgd.StepReaders
import Netcfgd.Wire

/-!
# The strings of attributes

`is_utf8` and `ncfg_wire_attr_string` of `src/sys/wire.c` : the text of an attribute is its bytes up
to a NUL, where these are UTF-8 and the reader has room for them (`of_attrString`).
-/

namespace Netcfgd.Utf8

open Nftables (Bytes)
open Steps (Decoder)

/-- Of a byte that may start a sequence, how many follow it and what it makes of the code point, and
of how many followed and the code point, whether it is refused. -/
structure Scheme where
  lead : UInt8 → Option (ℕ × ℕ)
  refuses : ℕ → ℕ → Bool

/-- The code point that the bytes after a first one make, six bits each, where each continues it. -/
def assembled : ℕ → Bytes → Option ℕ
  | point, [] => some point
  | point, next :: more =>
    if next &&& 0xc0 ≠ 0x80 then none
    else assembled (point <<< 6 ||| (next &&& 0x3f).toNat) more

/-- A turn of the loop of `is_utf8` and of that of `is_text`. -/
def Scheme.decoder (s : Scheme) : Decoder UInt8 where
  follow first := (s.lead first).map Prod.fst
  good first more :=
    match s.lead first with
    | none => false
    | some (follow, point) =>
      match assembled point more with
      | none => false
      | some point => !s.refuses follow point

/-- What `is_utf8` takes for a sequence. -/
def isUtf8Scheme : Scheme where
  lead lead :=
    if lead < 0x80 then some (0, lead.toNat)
    else if 0xc2 ≤ lead ∧ lead ≤ 0xdf then some (1, (lead &&& 0x1f).toNat)
    else if 0xe0 ≤ lead ∧ lead ≤ 0xef then some (2, (lead &&& 0x0f).toNat)
    else if 0xf0 ≤ lead ∧ lead ≤ 0xf4 then some (3, (lead &&& 0x07).toNat)
    else none
  refuses extra code :=
    (extra = 2 ∧ code < 0x800) ∨ (extra = 3 ∧ code < 0x10000) ∨ 0x10ffff < code ∨
      0xd800 ≤ code ∧ code ≤ 0xdfff

/-- `is_utf8`. -/
def isUtf8 (bytes : Bytes) : Bool := Steps.takes isUtf8Scheme.decoder.step bytes

/-- `ncfg_wire_attr_string`, into room of a size. A string that does not fit is refused. -/
def attrString (size : ℕ) (value : Bytes) : Except String Bytes :=
  let text := value.takeWhile (· ≠ 0)
  if size ≤ text.length then
    .error (s!"a {text.length}-byte string attribute does not fit a {size - 1}-byte buffer")
  else if isUtf8 text then .ok text
  else .error "a string attribute that is not valid UTF-8"

/-- A string that is read is short, UTF-8 and without NUL. -/
theorem of_attrString {size : ℕ} {value text : Bytes} (h : attrString size value = .ok text) :
    text.length < size ∧ isUtf8 text = true ∧ ∀ b ∈ text, b ≠ 0 := by
  unfold attrString at h
  dsimp only at h
  split_ifs at h with hsize hutf
  obtain rfl := Except.ok.inj h
  exact ⟨not_le.1 hsize, hutf, fun b hb =>
    of_decide_eq_true (List.all_eq_true.1 List.all_takeWhile b hb)⟩

/-- A text that is kept with its NUL is read. -/
theorem attrString_ended {size : ℕ} {text : Bytes} (hsize : text.length < size)
    (hutf : isUtf8 text = true) (hnul : ∀ b ∈ text, b ≠ 0) :
    attrString size (text ++ [0]) = .ok text := by
  have htext : (text ++ [0]).takeWhile (· ≠ 0) = text := by
    rw [List.takeWhile_append_of_pos fun b hb => decide_eq_true (hnul b hb)]
    simp
  unfold attrString
  rw [htext, if_neg (not_le.2 hsize), if_pos hutf]

end Netcfgd.Utf8
