import Netcfgd.JsonWrite

/-!
# The parts of what is written

A writer that has not failed is within the limit of its buffer (`Writer.Within`), whatever it was
called with. So a value that was written among others can be written by itself (`done_of_part`) :
it is no longer than what it is part of, and inside fewer containers.
-/

namespace Netcfgd.Json

/-! ## Fewer containers -/

mutual

theorem fits_mono : ∀ (t : Tree) {room room' : ℕ}, room ≤ room' → Fits room t → Fits room' t
  | .null, _, _, _, _ => trivial
  | .bool _, _, _, _, _ => trivial
  | .int _, _, _, _, _ => trivial
  | .string _, _, _, _, h => h
  | .array items, _, _, hle, ⟨hpos, hitems⟩ =>
    ⟨hpos.trans_le hle, fitsItems_mono items (Nat.sub_le_sub_right hle 1) hitems⟩
  | .object members, _, _, hle, ⟨hpos, hmembers⟩ =>
    ⟨hpos.trans_le hle, fitsMembers_mono members (Nat.sub_le_sub_right hle 1) hmembers⟩

theorem fitsItems_mono : ∀ (items : List Tree) {room room' : ℕ}, room ≤ room' →
    FitsItems room items → FitsItems room' items
  | [], _, _, _, _ => trivial
  | t :: rest, _, _, hle, ⟨h, hrest⟩ => ⟨fits_mono t hle h, fitsItems_mono rest hle hrest⟩

theorem fitsMembers_mono : ∀ (members : List (List UInt8 × Tree)) {room room' : ℕ},
    room ≤ room' → FitsMembers room members → FitsMembers room' members
  | [], _, _, _, _ => trivial
  | (_, t) :: rest, _, _, hle, ⟨hname, h, hrest⟩ =>
    ⟨hname, fits_mono t hle h, fitsMembers_mono rest hle hrest⟩

end

/-! ## Within the limit -/

namespace Writer

/-- What is in the buffer is within its limit, and a misuse has failed it. -/
structure Within (limit : ℕ) (w : Writer) : Prop where
  limit_eq : w.buf.limit = limit
  length_le : w.buf.bytes.length ≤ limit
  failed : w.failure ≠ none → w.buf.failed = true

variable {limit : ℕ} {w : Writer}

def either : Except Writer Writer → Writer
  | .ok w => w
  | .error w => w

theorem Within.fail (h : w.Within limit) (why : String) : (w.fail why).Within limit :=
  ⟨h.limit_eq, h.length_le, fun _ => rfl⟩

theorem Within.add (h : w.Within limit) (bytes : List UInt8) : (w.add bytes).Within limit := by
  unfold Writer.add Buf.add
  split_ifs with hnothing hlimit
  · exact h
  · exact ⟨h.limit_eq, h.length_le, fun _ => rfl⟩
  · refine ⟨h.limit_eq, ?_, h.failed⟩
    have hlength := h.length_le
    have hlimit := h.limit_eq
    simp only [List.length_append]
    omega

theorem Within.framed (h : w.Within limit) (frame : WriteFrame) (below : List WriteFrame) :
    Within limit { w with frame := frame, below := below } :=
  ⟨h.limit_eq, h.length_le, h.failed⟩

theorem Within.usable (h : w.Within limit) : (either w.usable).Within limit := by
  unfold Writer.usable
  split_ifs
  · exact h
  · exact h.fail _
  · exact h

theorem Within.beginValue (h : w.Within limit) : (either w.beginValue).Within limit := by
  have husable := h.usable
  unfold Writer.beginValue
  generalize w.usable = outcome at *
  cases outcome with
  | error w' => exact husable
  | ok w' =>
    have hw' : w'.Within limit := husable
    simp only [bind, Except.bind]
    split_ifs
    · exact hw'.fail _
    · exact hw'.framed _ _
    · exact hw'.framed _ _
    · exact hw'.fail _
    · exact (hw'.add _).framed _ _
    · exact hw'.framed _ _

theorem Within.writeBytes (bytes : List UInt8) : ∀ {w : Writer}, w.Within limit →
    (either (w.writeBytes bytes)).Within limit := by
  fun_induction escaped bytes with
  | case1 =>
    intro w h
    rwa [Writer.writeBytes]
  | case2 c rest hesc =>
    intro w h
    rw [Writer.writeBytes, hesc]
    exact h.fail _
  | case3 c rest piece step hesc ih =>
    intro w h
    rw [Writer.writeBytes, hesc]
    exact ih (h.add piece)

theorem Within.writeQuoted (h : w.Within limit) (bytes : List UInt8) :
    (w.writeQuoted bytes).Within limit := by
  have hbytes := Within.writeBytes bytes (h.add [ascii '"'])
  unfold Writer.writeQuoted
  generalize (w.add [ascii '"']).writeBytes bytes = outcome at *
  cases outcome with
  | error w' => exact hbytes
  | ok w' => exact Within.add hbytes _

theorem Within.writeScalar (h : w.Within limit) (s : Scalar) : (w.writeScalar s).Within limit := by
  have hbegin := h.beginValue
  unfold Writer.writeScalar
  generalize w.beginValue = outcome at *
  cases outcome with
  | error w' => exact hbegin
  | ok w' =>
    have hw' : w'.Within limit := hbegin
    cases s with
    | string text => exact hw'.writeQuoted _
    | stringBytes bytes => exact hw'.writeQuoted _
    | int n => exact hw'.add _
    | uint n => exact hw'.add _
    | bool b => exact hw'.add _
    | null => exact hw'.add _

theorem Within.containerBegin (h : w.Within limit) (mark : Char) (isObject : Bool) :
    (w.containerBegin mark isObject).Within limit := by
  have hbegin := h.beginValue
  unfold Writer.containerBegin
  generalize w.beginValue = outcome at *
  cases outcome with
  | error w' => exact hbegin
  | ok w' =>
    have hw' : w'.Within limit := hbegin
    dsimp only
    split_ifs
    · exact hw'.fail _
    · exact (hw'.add _).framed _ _

theorem Within.containerEnd (h : w.Within limit) (mark : Char) (isObject : Bool) :
    (w.containerEnd mark isObject).Within limit := by
  have husable := h.usable
  unfold Writer.containerEnd
  generalize w.usable = outcome at *
  cases outcome with
  | error w' => exact husable
  | ok w' =>
    have hw' : w'.Within limit := husable
    dsimp only
    cases w'.below with
    | nil => exact hw'.fail _
    | cons outer below =>
      dsimp only
      by_cases hkind : w'.frame.isObject ≠ isObject
      · rw [if_pos hkind]
        exact hw'.fail _
      · rw [if_neg hkind]
        split_ifs
        · exact hw'.fail _
        · exact (hw'.add _).framed _ _

theorem Within.writeKey (h : w.Within limit) (name : Option (List UInt8)) :
    (w.writeKey name).Within limit := by
  have husable := h.usable
  unfold Writer.writeKey
  generalize w.usable = outcome at *
  cases outcome with
  | error w' => exact husable
  | ok w' =>
    have hw' : w'.Within limit := husable
    dsimp only
    by_cases houtside : w'.below = [] ∨ ¬w'.frame.isObject = true
    · rw [if_pos houtside]
      exact hw'.fail _
    · rw [if_neg houtside]
      have hcomma : (if w'.frame.hasChild then w'.add [ascii ','] else w').Within limit := by
        split_ifs
        · exact hw'.add _
        · exact hw'
      by_cases hwants : w'.frame.wantsValue = true
      · rw [if_pos hwants]
        exact hw'.fail _
      · rw [if_neg hwants]
        cases name with
        | none => exact hw'.fail _
        | some name => exact ((hcomma.writeQuoted _).add _).framed _ _

theorem Within.call (h : w.Within limit) (c : Call) : (w.call c).Within limit := by
  cases c with
  | objectBegin => exact h.containerBegin _ _
  | objectEnd => exact h.containerEnd _ _
  | arrayBegin => exact h.containerBegin _ _
  | arrayEnd => exact h.containerEnd _ _
  | key name => exact h.writeKey name
  | scalar s => exact h.writeScalar s
  | noString =>
    have husable := h.usable
    simp only [Writer.call]
    generalize w.usable = outcome at *
    cases outcome with
    | error w' => exact husable
    | ok w' => exact Within.fail husable _

theorem Within.calls (calls : List Call) : ∀ {w : Writer}, w.Within limit →
    (calls.foldl Writer.call w).Within limit := by
  induction calls with
  | nil => exact fun h => h
  | cons c calls ih => exact fun h => ih (h.call c)

theorem within_write (limit : ℕ) (calls : List Call) : (write limit calls).Within limit :=
  Within.calls calls ⟨rfl, Nat.zero_le _, fun h => absurd rfl h⟩

theorem Within.hasFailed_iff (h : w.Within limit) : w.hasFailed = true ↔ w.buf.failed = true := by
  rw [hasFailed, decide_eq_true_iff]
  exact ⟨fun hor => hor.elim h.failed id, .inr⟩

end Writer

/-! ## A part -/

theorem done_of_part {limit : ℕ} {before after : List Call} {s : Script}
    (h : (write limit (before ++ (s.calls ++ after))).hasFailed = false) :
    (write limit s.calls).done = true := by
  unfold write at h
  rw [List.foldl_append, List.foldl_append] at h
  have hwithin := Writer.Within.calls s.calls (Writer.within_write limit before)
  unfold write at hwithin
  obtain ⟨-, hfits, heq⟩ := Writer.script_ok s 0 (Writer.ok_of_calls h)
  rw [heq] at hwithin
  have hlength := hwithin.length_le
  simp only [Writer.grown, List.length_append] at hlength
  refine (Writer.done_of_fits (fits_mono s.value (Nat.sub_le _ _) hfits) ?_).1
  omega

end Netcfgd.Json
