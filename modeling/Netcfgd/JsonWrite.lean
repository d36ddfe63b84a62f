import Mathlib.Data.Nat.Digits.Lemmas

/-!
# Writing JSON

`src/json/write.c` over the buffer of `src/base/buf.c`. A writer is a buffer, the first misuse,
and a frame for each container it is inside of, the document itself at the bottom. Every call
goes on from any writer, one that failed included, and a misuse fails the buffer too.

What a sequence of calls writes is a `Script` : the calls that write one value, nested as the
value is. A sequence that ends in `done` is the calls of a script, and its text is the script
rendered without a blank (`exists_script_of_done`, `text_of_script`). A script whose value fits is
written to the end where the buffer has room for that text (`done_of_fits`).
-/

namespace Netcfgd.Json

/-! ## The buffer -/

/-- `ncfg_buf_t`, as long as there is memory. -/
structure Buf where
  bytes : List UInt8 := []
  limit : ℕ
  failed : Bool := false
  deriving DecidableEq, Repr

/-- `ncfg_buf_add`. -/
def Buf.add (b : Buf) (bytes : List UInt8) : Buf :=
  if bytes = [] ∨ b.failed then b
  else if b.limit - b.bytes.length < bytes.length then { b with failed := true }
  else { b with bytes := b.bytes ++ bytes }

/-- `ncfg_json_write_frame_t`. -/
structure WriteFrame where
  isObject : Bool := false
  hasChild : Bool := false
  wantsValue : Bool := false
  deriving DecidableEq, Repr

/-- `ncfg_json_writer_t` : the frame at `depth`, and the ones below it. -/
structure Writer where
  buf : Buf
  failure : Option String := none
  frame : WriteFrame := {}
  below : List WriteFrame := []
  deriving DecidableEq, Repr

inductive Scalar
  /-- `ncfg_json_write_string`, up to the first NUL. -/
  | string (text : List UInt8)
  | stringBytes (bytes : List UInt8)
  | int (n : Int64)
  | uint (n : UInt64)
  | bool (b : Bool)
  | null
  deriving DecidableEq, Repr

/-- The calls of `json_write.h`. A member with its value is a key and then the value. -/
inductive Call
  | objectBegin
  | objectEnd
  | arrayBegin
  | arrayEnd
  | key (name : Option (List UInt8))
  | scalar (s : Scalar)
  | noString
  deriving DecidableEq, Repr

/-- A value : members in order, strings as their bytes. -/
inductive Tree
  | null
  | bool (b : Bool)
  | int (n : ℤ)
  | string (bytes : List UInt8)
  | array (items : List Tree)
  | object (members : List (List UInt8 × Tree))

/-- The calls of a well-nested writer, as a tree. -/
inductive Script
  | scalar (s : Scalar)
  | array (items : List Script)
  | object (members : List (List UInt8 × Script))

theorem Buf.add_ok {b : Buf} {bytes : List UInt8} (h : (b.add bytes).failed = false) :
    b.failed = false ∧ b.add bytes = { b with bytes := b.bytes ++ bytes } := by
  unfold Buf.add at h ⊢
  split_ifs at h ⊢ with hnothing hlimit
  · rcases hnothing with rfl | hfailed
    · exact ⟨h, by simp⟩
    · rw [h] at hfailed
      cases hfailed
  · exact ⟨h, rfl⟩

def ascii (c : Char) : UInt8 := c.toUInt8

def asciis (text : String) : List UInt8 := text.toList.map ascii

theorem asciis_ofList (text : List Char) : asciis (String.ofList text) = text.map ascii := by
  rw [asciis, String.toList_ofList]

/-- The octets that a text is kept as, which evaluate without the text being decoded. -/
def stored (text : String) : List UInt8 := text.toByteArray.data.toList

theorem utf8EncodeChar_plain {c : Char} (h : (String.utf8EncodeChar c).all (· < 0x80) = true) :
    String.utf8EncodeChar c = [ascii c] := by
  have hlead : ∀ {n k : ℕ} {rest : List UInt8}, k + n < 256 → 128 ≤ n →
      (UInt8.ofNat (k + n) :: rest).all (· < 0x80) = true → False := by
    intro n k rest hlt hn hall
    rw [List.all_cons, Bool.and_eq_true, decide_eq_true_eq, UInt8.lt_iff_toNat_lt,
      UInt8.toNat_ofNat_of_lt' hlt] at hall
    exact absurd hall.1 (not_lt.2 (hn.trans (Nat.le_add_left n k)))
  unfold String.utf8EncodeChar at h ⊢
  dsimp only at h ⊢
  split_ifs at h ⊢
  · rfl
  · exact (hlead (by omega) (by decide) h).elim
  · exact (hlead (by omega) (by decide) h).elim
  · exact (hlead (by omega) (by decide) h).elim

theorem asciis_eq_stored {text : String} (h : (stored text).all (· < 0x80) = true) :
    asciis text = stored text := by
  obtain ⟨cs, rfl⟩ : ∃ cs, text = String.ofList cs := ⟨text.toList, String.ofList_toList.symm⟩
  have hstored : stored (String.ofList cs) = cs.flatMap String.utf8EncodeChar := by
    rw [stored, String.toByteArray_ofList, List.utf8Encode, List.data_toByteArray]
  rw [asciis_ofList]
  rw [hstored] at h ⊢
  clear hstored
  induction cs with
  | nil => rfl
  | cons c cs ih =>
    rw [List.flatMap_cons, List.all_append, Bool.and_eq_true] at h
    rw [List.map_cons, List.flatMap_cons, utf8EncodeChar_plain h.1, ← ih h.2, List.singleton_append]

/-! ## The writer -/

/-- `NCFG_JSON_MAX_DEPTH`. -/
def maxDepth : ℕ := 32

namespace Writer

variable (w : Writer)

/-- `writer_fail`. -/
def fail (why : String) : Writer :=
  { w with failure := w.failure.or (some why), buf := { w.buf with failed := true } }

def add (bytes : List UInt8) : Writer := { w with buf := w.buf.add bytes }

/-- `usable` : the writer to go on with, or the one a refused call leaves. -/
def usable : Except Writer Writer :=
  if w.failure ≠ none then .error w
  else if w.buf.failed then .error (w.fail "the buffer this document is written into failed")
  else .ok w

def takePlace : Writer := { w with frame := { w.frame with hasChild := true, wantsValue := false } }

/-- `begin_value`. -/
def beginValue : Except Writer Writer := do
  let w ← w.usable
  if w.below = [] then
    if w.frame.hasChild then .error (w.fail "a second value after the document's only one")
    else .ok w.takePlace
  else if w.frame.isObject then
    if w.frame.wantsValue then .ok w.takePlace
    else .error (w.fail "a value where a member name belongs")
  else if w.frame.hasChild then .ok (w.add [ascii ',']).takePlace
  else .ok w.takePlace

end Writer

/-- `utf8_step` : the length of the sequence a byte starts, with what follows it, 0 for none. -/
def utf8Step (first : UInt8) (rest : List UInt8) : ℕ :=
  let tail (b : UInt8) : Bool := 0x80 ≤ b && b < 0xc0
  if first < 0x80 then 1
  else if 0xc2 ≤ first ∧ first ≤ 0xdf then
    match rest with
    | a :: _ => if tail a then 2 else 0
    | _ => 0
  else if 0xe0 ≤ first ∧ first ≤ 0xef then
    match rest with
    | a :: b :: _ =>
      let codePoint := (first.toNat % 16 * 64 + a.toNat % 64) * 64 + b.toNat % 64
      if tail a ∧ tail b ∧ ¬(codePoint < 0x800 ∨ 0xd800 ≤ codePoint ∧ codePoint ≤ 0xdfff) then 3
      else 0
    | _ => 0
  else if 0xf0 ≤ first ∧ first ≤ 0xf4 then
    match rest with
    | a :: b :: c :: _ =>
      let codePoint :=
        ((first.toNat % 8 * 64 + a.toNat % 64) * 64 + b.toNat % 64) * 64 + c.toNat % 64
      if tail a ∧ tail b ∧ tail c ∧ ¬(codePoint < 0x10000 ∨ 0x10ffff < codePoint) then 4 else 0
    | _ => 0
  else 0

/-- `hex_digits`. -/
def hexDigit (n : ℕ) : UInt8 := if n < 10 then UInt8.ofNat (48 + n) else UInt8.ofNat (87 + n)

def shortForm (c : UInt8) : Option (List UInt8) :=
  if c = ascii '"' then some (asciis "\\\"")
  else if c = ascii '\\' then some (asciis "\\\\")
  else if c = 0x08 then some (asciis "\\b")
  else if c = 0x0c then some (asciis "\\f")
  else if c = 0x0a then some (asciis "\\n")
  else if c = 0x0d then some (asciis "\\r")
  else if c = 0x09 then some (asciis "\\t")
  else none

/-- What is written for the byte at hand, and how many of the bytes after it are written with it :
nothing where they are not UTF-8. -/
def escape (c : UInt8) (rest : List UInt8) : Option (List UInt8 × ℕ) :=
  match shortForm c with
  | some short => some (short, 0)
  | none =>
    if c < 0x20 then
      some (asciis "\\u00" ++ [hexDigit (c.toNat / 16), hexDigit (c.toNat % 16)], 0)
    else match utf8Step c rest with
      | 0 => none
      | step + 1 => some (c :: rest.take step, step)

namespace Writer

/-- The bytes between the quotes, up to the first that is not UTF-8. -/
def writeBytes (w : Writer) : List UInt8 → Except Writer Writer
  | [] => .ok w
  | c :: rest =>
    match escape c rest with
    | none => .error (w.fail "a string that is not UTF-8")
    | some (piece, step) => (w.add piece).writeBytes (rest.drop step)
  termination_by bytes => bytes.length
  decreasing_by
    simp only [List.length_drop, List.length_cons]
    omega

/-- `write_quoted`. -/
def writeQuoted (w : Writer) (bytes : List UInt8) : Writer :=
  match (w.add [ascii '"']).writeBytes bytes with
  | .ok w => w.add [ascii '"']
  | .error w => w

/-- `container_begin`. -/
def containerBegin (w : Writer) (mark : Char) (isObject : Bool) : Writer :=
  match w.beginValue with
  | .error w => w
  | .ok w =>
    if maxDepth ≤ w.below.length then w.fail "nesting deeper than the reader accepts"
    else { w.add [ascii mark] with frame := { isObject }, below := w.frame :: w.below }

/-- `container_end`. -/
def containerEnd (w : Writer) (mark : Char) (isObject : Bool) : Writer :=
  match w.usable with
  | .error w => w
  | .ok w =>
    match w.below with
    | [] => w.fail (if isObject then "an object closed with none open"
        else "an array closed with none open")
    | outer :: below =>
      if w.frame.isObject ≠ isObject then
        w.fail (if isObject then "an object end closing an array"
          else "an array end closing an object")
      else if w.frame.wantsValue then
        w.fail "an object closed after a member name with no value"
      else { w.add [ascii mark] with frame := outer, below := below }

/-- What `strlen` takes of the bytes of a C string. -/
def cString (bytes : List UInt8) : List UInt8 := bytes.takeWhile (· ≠ 0)

/-- `ncfg_json_write_key`. -/
def writeKey (w : Writer) (name : Option (List UInt8)) : Writer :=
  match w.usable with
  | .error w => w
  | .ok w =>
    if w.below = [] ∨ ¬w.frame.isObject then w.fail "a member name outside an object"
    else if w.frame.wantsValue then w.fail "a member name where its value belongs"
    else match name with
      | none => w.fail "a member with no name"
      | some name =>
        let w := if w.frame.hasChild then w.add [ascii ','] else w
        let w := (w.writeQuoted (cString name)).add [ascii ':']
        { w with frame := { w.frame with hasChild := true, wantsValue := true } }

end Writer

/-- The digits of a number, the first of them not 0 unless it is the only one. -/
def decimalDigits (n : ℕ) : List ℕ := if n = 0 then [0] else (Nat.digits 10 n).reverse

/-- A number in decimal, as `%lld` and `%llu` write it. -/
def decimal (n : ℤ) : List UInt8 :=
  (if n < 0 then [ascii '-'] else []) ++
    (decimalDigits n.natAbs).map fun d => UInt8.ofNat (48 + d)

namespace Writer

def writeScalar (w : Writer) (s : Scalar) : Writer :=
  match w.beginValue with
  | .error w => w
  | .ok w =>
    match s with
    | .string text => w.writeQuoted (cString text)
    | .stringBytes bytes => w.writeQuoted bytes
    | .int n => w.add (decimal n.toInt)
    | .uint n => w.add (decimal n.toNat)
    | .bool b => w.add (asciis (if b then "true" else "false"))
    | .null => w.add (asciis "null")

def call (w : Writer) : Call → Writer
  | .objectBegin => w.containerBegin '\x7b' true
  | .objectEnd => w.containerEnd '\x7d' true
  | .arrayBegin => w.containerBegin '[' false
  | .arrayEnd => w.containerEnd ']' false
  | .key name => w.writeKey name
  | .scalar s => w.writeScalar s
  | .noString =>
    match w.usable with
    | .error w => w
    | .ok w => w.fail "a string that is a null pointer"

/-- `ncfg_json_write_failed`. -/
def hasFailed (w : Writer) : Bool := w.failure ≠ none ∨ w.buf.failed

/-- `ncfg_json_write_done`. -/
def done (w : Writer) : Bool := ¬w.hasFailed ∧ w.below = [] ∧ w.frame.hasChild

end Writer

/-- A writer after some calls. -/
def write (limit : ℕ) (calls : List Call) : Writer :=
  calls.foldl Writer.call { buf := { limit } }

/-! ## What is written -/

def Scalar.value : Scalar → Tree
  | .string text => .string (Writer.cString text)
  | .stringBytes bytes => .string bytes
  | .int n => .int n.toInt
  | .uint n => .int n.toNat
  | .bool b => .bool b
  | .null => .null

mutual

/-- The calls of a script, in order. -/
def Script.calls : Script → List Call
  | .scalar s => [.scalar s]
  | .array items => .arrayBegin :: (itemsCalls items ++ [Call.arrayEnd])
  | .object members => .objectBegin :: (membersCalls members ++ [Call.objectEnd])

def itemsCalls : List Script → List Call
  | [] => []
  | s :: rest => s.calls ++ itemsCalls rest

def membersCalls : List (List UInt8 × Script) → List Call
  | [] => []
  | (name, s) :: rest => .key (some name) :: (s.calls ++ membersCalls rest)

end

mutual

/-- The tree a script writes. -/
def Script.value : Script → Tree
  | .scalar s => s.value
  | .array items => .array (itemsValue items)
  | .object members => .object (membersValue members)

def itemsValue : List Script → List Tree
  | [] => []
  | s :: rest => s.value :: itemsValue rest

def membersValue : List (List UInt8 × Script) → List (List UInt8 × Tree)
  | [] => []
  | (name, s) :: rest => (Writer.cString name, s.value) :: membersValue rest

end

theorem itemsCalls_append :
    ∀ l l' : List Script, itemsCalls (l ++ l') = itemsCalls l ++ itemsCalls l'
  | [], _ => rfl
  | s :: l, l' => by
    rw [List.cons_append, itemsCalls, itemsCalls, itemsCalls_append l l', List.append_assoc]

theorem membersCalls_append :
    ∀ l l' : List (List UInt8 × Script), membersCalls (l ++ l') = membersCalls l ++ membersCalls l'
  | [], _ => rfl
  | (name, s) :: l, l' => by
    rw [List.cons_append, membersCalls, membersCalls, membersCalls_append l l', List.cons_append,
      List.append_assoc]

/-! ## A call that does not fail -/

namespace Writer

variable {w w' : Writer}

def grown (w : Writer) (bytes : List UInt8) : Writer :=
  { w with buf := { w.buf with bytes := w.buf.bytes ++ bytes } }

@[simp] theorem grown_nil (w : Writer) : w.grown [] = w := by
  simp [grown]

@[simp] theorem grown_grown (w : Writer) (bytes bytes' : List UInt8) :
    (w.grown bytes).grown bytes' = w.grown (bytes ++ bytes') := by
  simp [grown]

@[simp] theorem hasFailed_fail (w : Writer) (why : String) : (w.fail why).hasFailed = true := by
  simp [fail, hasFailed]

theorem add_nil (w : Writer) : w.add [] = w := by
  simp [add, Buf.add]

theorem add_ok {bytes : List UInt8} (h : (w.add bytes).hasFailed = false) :
    w.hasFailed = false ∧ w.add bytes = w.grown bytes := by
  obtain ⟨hfailure, hbuf⟩ := not_or.1 (of_decide_eq_false h)
  obtain ⟨hok, heq⟩ := Buf.add_ok (eq_false_of_ne_true hbuf)
  refine ⟨decide_eq_false (not_or.2 ⟨hfailure, ?_⟩), ?_⟩
  · rw [hok]
    decide
  · rw [add, heq]
    rfl

theorem usable_eq (w : Writer) : w.hasFailed = false ∧ w.usable = .ok w ∨
    w.hasFailed = true ∧ ∃ w', w.usable = .error w' ∧ w'.hasFailed = true := by
  unfold usable
  split_ifs with hfailure hbuf
  · refine .inr ⟨by simp [hasFailed, hfailure], w, rfl, by simp [hasFailed, hfailure]⟩
  · exact .inr ⟨by simp [hasFailed, hbuf], _, rfl, hasFailed_fail _ _⟩
  · exact .inl ⟨by simpa [hasFailed, hbuf] using hfailure, rfl⟩

def CanTake (frame : WriteFrame) (below : List WriteFrame) : Prop :=
  if below = [] then frame.hasChild = false else frame.isObject = true → frame.wantsValue = true

def taken (frame : WriteFrame) : WriteFrame := { frame with hasChild := true, wantsValue := false }

def comma (frame : WriteFrame) (below : List WriteFrame) : List UInt8 :=
  if below ≠ [] ∧ frame.isObject = false ∧ frame.hasChild = true then [ascii ','] else []

theorem beginValue_eq (w : Writer) :
    w.hasFailed = false ∧ CanTake w.frame w.below ∧
      w.beginValue = .ok { w.add (comma w.frame w.below) with frame := taken w.frame } ∨
    ∃ w', w.beginValue = .error w' ∧ w'.hasFailed = true := by
  rcases usable_eq w with ⟨hok, husable⟩ | ⟨-, w', husable, hfailed⟩
  · simp only [beginValue, husable, bind, Except.bind]
    by_cases hbelow : w.below = []
    · rw [if_pos hbelow]
      split_ifs with hchild
      · exact .inr ⟨_, rfl, hasFailed_fail _ _⟩
      · refine .inl ⟨hok, by simpa [CanTake, hbelow] using hchild, ?_⟩
        simp [comma, hbelow, add_nil, takePlace, taken]
    · rw [if_neg hbelow]
      split_ifs with hobject hwants hchild
      · refine .inl ⟨hok, by simp [CanTake, hbelow, hwants], ?_⟩
        simp [comma, hobject, add_nil, takePlace, taken]
      · exact .inr ⟨_, rfl, hasFailed_fail _ _⟩
      · refine .inl ⟨hok, by simp [CanTake, hbelow, hobject], ?_⟩
        simp [comma, hbelow, hobject, hchild, takePlace, taken, add]
      · refine .inl ⟨hok, by simp [CanTake, hbelow, hobject], ?_⟩
        simp [comma, hchild, add_nil, takePlace, taken]
  · refine .inr ⟨w', ?_, hfailed⟩
    simp [beginValue, husable, bind, Except.bind]

end Writer

def escaped : List UInt8 → Option (List UInt8)
  | [] => some []
  | c :: rest =>
    match escape c rest with
    | none => none
    | some (piece, step) => (escaped (rest.drop step)).map (piece ++ ·)
  termination_by bytes => bytes.length
  decreasing_by
    simp only [List.length_drop, List.length_cons]
    omega

def quoted (bytes : List UInt8) : List UInt8 :=
  ascii '"' :: ((escaped bytes).getD [] ++ [ascii '"'])

namespace Writer

theorem writeBytes_cases (bytes : List UInt8) : ∀ w : Writer,
    (∃ w', w.writeBytes bytes = .error w' ∧ w'.hasFailed = true) ∨
    ∃ w', w.writeBytes bytes = .ok w' ∧ (w'.hasFailed = false →
      w.hasFailed = false ∧ ∃ text, escaped bytes = some text ∧ w' = w.grown text) := by
  fun_induction escaped bytes with
  | case1 =>
    intro w
    exact .inr ⟨w, by rw [writeBytes], fun hok => ⟨hok, [], rfl, (grown_nil w).symm⟩⟩
  | case2 c rest hesc =>
    intro w
    refine .inl ⟨w.fail "a string that is not UTF-8", ?_, hasFailed_fail _ _⟩
    rw [writeBytes, hesc]
  | case3 c rest piece step hesc ih =>
    intro w
    rw [writeBytes, hesc]
    rcases ih (w.add piece) with herror | ⟨w', heq, hok⟩
    · exact .inl herror
    · refine .inr ⟨w', heq, fun hw' => ?_⟩
      obtain ⟨hadd, text, htext, rfl⟩ := hok hw'
      obtain ⟨hw, hgrown⟩ := add_ok hadd
      exact ⟨hw, piece ++ text, by rw [htext]; rfl, by rw [hgrown, grown_grown]⟩

theorem writeQuoted_ok {w : Writer} {bytes : List UInt8}
    (h : (w.writeQuoted bytes).hasFailed = false) :
    w.hasFailed = false ∧ (escaped bytes).isSome ∧
      w.writeQuoted bytes = w.grown (quoted bytes) := by
  unfold writeQuoted at h ⊢
  rcases writeBytes_cases bytes (w.add [ascii '"']) with ⟨w', heq, hfailed⟩ | ⟨w', heq, hok⟩
  · rw [heq] at h
    rw [hfailed] at h
    cases h
  · rw [heq] at h ⊢
    obtain ⟨hw', hclose⟩ := add_ok h
    obtain ⟨hopen, text, htext, rfl⟩ := hok hw'
    obtain ⟨hw, hgrown⟩ := add_ok hopen
    refine ⟨hw, by rw [htext]; rfl, ?_⟩
    change ((w.add [ascii '"']).grown text).add [ascii '"'] = _
    rw [hclose, hgrown]
    simp [quoted, htext]

end Writer

/-! ## The text -/

/-- Where a text breaks its lines : before a child and before the end of its container, by depth,
and after a colon. -/
structure Layout where
  brk : ℕ → List UInt8
  gap : List UInt8

def compact : Layout := ⟨fun _ => [], []⟩

mutual

/-- A tree as a layout spells it. -/
def render (l : Layout) (depth : ℕ) : Tree → List UInt8
  | .null => asciis "null"
  | .bool b => asciis (if b then "true" else "false")
  | .int n => decimal n
  | .string bytes => quoted bytes
  | .array items =>
    ascii '[' :: (renderItems l (depth + 1) true items ++
      ((if items.isEmpty then [] else l.brk depth) ++ [ascii ']']))
  | .object members =>
    ascii '\x7b' :: (renderMembers l (depth + 1) true members ++
      ((if members.isEmpty then [] else l.brk depth) ++ [ascii '\x7d']))

def renderItems (l : Layout) (depth : ℕ) (first : Bool) : List Tree → List UInt8
  | [] => []
  | t :: rest =>
    (if first then [] else [ascii ',']) ++ (l.brk depth ++ (render l depth t ++
      renderItems l depth false rest))

def renderMembers (l : Layout) (depth : ℕ) (first : Bool) : List (List UInt8 × Tree) → List UInt8
  | [] => []
  | (name, t) :: rest =>
    (if first then [] else [ascii ',']) ++ (l.brk depth ++ (quoted name ++
      (ascii ':' :: (l.gap ++ (render l depth t ++ renderMembers l depth false rest)))))

end

mutual

/-- Every string is UTF-8, and no value is inside more containers than allowed. -/
def Fits : ℕ → Tree → Prop
  | _, .null | _, .bool _ | _, .int _ => True
  | _, .string bytes => (escaped bytes).isSome
  | room, .array items => 0 < room ∧ FitsItems (room - 1) items
  | room, .object members => 0 < room ∧ FitsMembers (room - 1) members

def FitsItems : ℕ → List Tree → Prop
  | _, [] => True
  | room, t :: rest => Fits room t ∧ FitsItems room rest

def FitsMembers : ℕ → List (List UInt8 × Tree) → Prop
  | _, [] => True
  | room, (name, t) :: rest => (escaped name).isSome ∧ Fits room t ∧ FitsMembers room rest

end

/-! ## The text of a script -/

namespace Writer

theorem call_of_failed {w : Writer} (h : w.hasFailed = true) (c : Call) :
    (w.call c).hasFailed = true := by
  have husable : ∃ w', w.usable = .error w' ∧ w'.hasFailed = true := by
    rcases usable_eq w with ⟨hok, -⟩ | ⟨-, herror⟩
    · rw [hok] at h
      cases h
    · exact herror
  have hbegin : ∃ w', w.beginValue = .error w' ∧ w'.hasFailed = true := by
    rcases beginValue_eq w with ⟨hok, -⟩ | herror
    · rw [hok] at h
      cases h
    · exact herror
  obtain ⟨w₁, h₁, hw₁⟩ := husable
  obtain ⟨w₂, h₂, hw₂⟩ := hbegin
  cases c with
  | objectBegin | arrayBegin => simpa [call, containerBegin, h₂] using hw₂
  | objectEnd | arrayEnd => simpa [call, containerEnd, h₁] using hw₁
  | key name => simpa [call, writeKey, h₁] using hw₁
  | scalar s => simpa [call, writeScalar, h₂] using hw₂
  | noString => simpa [call, h₁] using hw₁

theorem calls_of_failed {w : Writer} (h : w.hasFailed = true) :
    ∀ calls : List Call, (calls.foldl call w).hasFailed = true
  | [] => h
  | c :: calls => by
    rw [List.foldl_cons]
    induction calls generalizing w c with
    | nil => exact call_of_failed h c
    | cons c' calls ih => exact ih (call_of_failed h c) c'

theorem ok_of_calls {w : Writer} {calls : List Call}
    (h : (calls.foldl call w).hasFailed = false) : w.hasFailed = false := by
  by_contra hfailed
  rw [calls_of_failed (eq_true_of_ne_false hfailed)] at h
  cases h

theorem beginValue_ok {w w' : Writer} (h : w.beginValue = .ok w') (hok : w'.hasFailed = false) :
    w.hasFailed = false ∧ CanTake w.frame w.below ∧
      w' = { w.grown (comma w.frame w.below) with frame := taken w.frame } := by
  rcases beginValue_eq w with ⟨hw, htake, heq⟩ | ⟨w'', heq, -⟩
  · rw [heq] at h
    cases h
    have hadd : (w.add (comma w.frame w.below)).hasFailed = false := hok
    exact ⟨hw, htake, by rw [(add_ok hadd).2]⟩
  · rw [heq] at h
    cases h

theorem scalar_ok {w : Writer} {s : Scalar} (h : (w.call (.scalar s)).hasFailed = false)
    (room depth : ℕ) :
    CanTake w.frame w.below ∧ Fits room s.value ∧ w.call (.scalar s) =
      { w.grown (comma w.frame w.below ++ render compact depth s.value) with
        frame := taken w.frame } := by
  rcases beginValue_eq w with ⟨-, -, hbegin⟩ | ⟨w', hbegin, hfailed⟩
  case inr =>
    simp only [call, writeScalar, hbegin, hfailed] at h
    cases h
  have hcall {text : List UInt8} {w' : Writer} (hw : w.beginValue = .ok w')
      (heq : w.call (.scalar s) = w'.grown text) :
      CanTake w.frame w.below ∧ w.call (.scalar s) =
        { w.grown (comma w.frame w.below ++ text) with frame := taken w.frame } := by
    have hok : w'.hasFailed = false := by
      rw [heq] at h
      exact h
    obtain ⟨-, htake, hw'⟩ := beginValue_ok hw hok
    refine ⟨htake, ?_⟩
    rw [heq, hw', ← grown_grown]
    rfl
  cases s with
  | string text =>
    simp only [call, writeScalar, hbegin] at h
    obtain ⟨-, hutf, heq⟩ := writeQuoted_ok h
    obtain ⟨htake, hcall⟩ := hcall hbegin (by simpa [call, writeScalar, hbegin] using heq)
    exact ⟨htake, hutf, hcall⟩
  | stringBytes bytes =>
    simp only [call, writeScalar, hbegin] at h
    obtain ⟨-, hutf, heq⟩ := writeQuoted_ok h
    obtain ⟨htake, hcall⟩ := hcall hbegin (by simpa [call, writeScalar, hbegin] using heq)
    exact ⟨htake, hutf, hcall⟩
  | int n | uint n | bool b | null =>
    simp only [call, writeScalar, hbegin] at h
    obtain ⟨-, heq⟩ := add_ok h
    obtain ⟨htake, hcall⟩ := hcall hbegin (by simpa [call, writeScalar, hbegin] using heq)
    exact ⟨htake, trivial, hcall⟩

theorem containerBegin_ok {w : Writer} {mark : Char} {isObject : Bool}
    (h : (w.containerBegin mark isObject).hasFailed = false) :
    CanTake w.frame w.below ∧ w.below.length < maxDepth ∧ w.containerBegin mark isObject =
      { w.grown (comma w.frame w.below ++ [ascii mark]) with
        frame := { isObject }, below := taken w.frame :: w.below } := by
  unfold containerBegin at h ⊢
  rcases hbegin : w.beginValue with w' | w'
  · rcases beginValue_eq w with ⟨-, -, heq⟩ | ⟨w'', heq, hfailed⟩
    · rw [heq] at hbegin
      cases hbegin
    · rw [heq] at hbegin
      cases hbegin
      rw [heq] at h
      simp only [hfailed] at h
      cases h
  · rw [hbegin] at h
    dsimp only at h ⊢
    split_ifs at h ⊢ with hdeep
    · simp at h
    · have hadd : (w'.add [ascii mark]).hasFailed = false := h
      obtain ⟨hok, hgrown⟩ := add_ok hadd
      obtain ⟨-, htake, rfl⟩ := beginValue_ok hbegin hok
      refine ⟨htake, Nat.lt_of_not_le hdeep, ?_⟩
      rw [hgrown, ← grown_grown]
      rfl

theorem containerEnd_ok {w : Writer} {mark : Char} {isObject : Bool}
    (h : (w.containerEnd mark isObject).hasFailed = false) :
    ∃ outer below, w.below = outer :: below ∧ w.frame.isObject = isObject ∧
      w.frame.wantsValue = false ∧ w.containerEnd mark isObject =
        { w.grown [ascii mark] with frame := outer, below := below } := by
  unfold containerEnd at h ⊢
  rcases usable_eq w with ⟨-, husable⟩ | ⟨-, w', husable, hfailed⟩
  · rw [husable] at h ⊢
    dsimp only at h ⊢
    rcases hbelow : w.below with _ | ⟨outer, below⟩
    · simp [hbelow] at h
    · rw [hbelow] at h
      dsimp only at h ⊢
      by_cases hkind : w.frame.isObject = isObject
      · by_cases hwants : w.frame.wantsValue = true
        · simp [hkind, hwants] at h
        · simp only [hkind, ne_eq, not_true_eq_false, if_false, if_neg hwants] at h ⊢
          have hadd : (w.add [ascii mark]).hasFailed = false := h
          refine ⟨outer, below, rfl, trivial, by simpa using hwants, ?_⟩
          rw [(add_ok hadd).2]
      · simp [hkind] at h
  · simp only [husable, hfailed] at h
    cases h

theorem writeKey_ok {w : Writer} {name : Option (List UInt8)}
    (h : (w.writeKey name).hasFailed = false) :
    ∃ bytes, name = some bytes ∧ w.below ≠ [] ∧ w.frame.isObject = true ∧
      w.frame.wantsValue = false ∧ (escaped (cString bytes)).isSome ∧ w.writeKey name =
        { w.grown ((if w.frame.hasChild then [ascii ','] else []) ++
            (quoted (cString bytes) ++ [ascii ':'])) with
          frame := { isObject := true, hasChild := true, wantsValue := true } } := by
  unfold writeKey at h ⊢
  rcases usable_eq w with ⟨-, husable⟩ | ⟨-, w', husable, hfailed⟩
  · rw [husable] at h ⊢
    dsimp only at h ⊢
    by_cases houtside : w.below = [] ∨ ¬w.frame.isObject
    · rw [if_pos houtside, hasFailed_fail] at h
      cases h
    · by_cases hwants : w.frame.wantsValue = true
      · rw [if_neg houtside, if_pos hwants, hasFailed_fail] at h
        cases h
      · cases name with
        | none =>
          rw [if_neg houtside, if_neg hwants, hasFailed_fail] at h
          cases h
        | some bytes =>
          simp only [if_neg houtside, if_neg hwants] at h ⊢
          obtain ⟨hbelow, hobject⟩ := not_or.1 houtside
          have hcomma : (if w.frame.hasChild then w.add [ascii ','] else w) =
              w.add (if w.frame.hasChild then [ascii ','] else []) := by
            split_ifs
            · rfl
            · exact (add_nil w).symm
          rw [hcomma] at h ⊢
          obtain ⟨hname, hcolon⟩ := add_ok (w := writeQuoted _ _) h
          obtain ⟨hfirst, hutf, hquoted⟩ := writeQuoted_ok hname
          obtain ⟨-, hgrown⟩ := add_ok hfirst
          refine ⟨bytes, rfl, hbelow, not_not.1 hobject, by simpa using hwants, hutf, ?_⟩
          rw [hcolon, hquoted, hgrown, grown_grown, grown_grown]
          simp [grown, not_not.1 hobject]
  · simp only [husable, hfailed] at h
    cases h

mutual

theorem script_ok : ∀ (s : Script) {w : Writer} (depth : ℕ),
    (s.calls.foldl call w).hasFailed = false →
    CanTake w.frame w.below ∧ Fits (maxDepth - w.below.length) s.value ∧ s.calls.foldl call w =
      { w.grown (comma w.frame w.below ++ render compact depth s.value) with
        frame := taken w.frame }
  | .scalar s, _, depth, h => scalar_ok h _ depth
  | .array items, w, depth, h => by
    rw [Script.calls, List.foldl_cons, List.foldl_append] at h ⊢
    have hitems := ok_of_calls h
    obtain ⟨htake, hdeep, hbegin⟩ := containerBegin_ok (ok_of_calls hitems)
    rw [call, hbegin] at h hitems ⊢
    obtain ⟨hfits, heq⟩ := items_ok items (depth + 1) hitems (List.cons_ne_nil _ _) rfl rfl
    rw [heq] at h ⊢
    obtain ⟨outer, below, hbelow, -, -, hend⟩ := containerEnd_ok h
    cases hbelow
    refine ⟨htake, ⟨by omega, ?_⟩, hend.trans ?_⟩
    · rwa [List.length_cons, ← Nat.sub_sub] at hfits
    · simp [grown, Script.value, render, compact]
  | .object members, w, depth, h => by
    rw [Script.calls, List.foldl_cons, List.foldl_append] at h ⊢
    have hmembers := ok_of_calls h
    obtain ⟨htake, hdeep, hbegin⟩ := containerBegin_ok (ok_of_calls hmembers)
    rw [call, hbegin] at h hmembers ⊢
    obtain ⟨hfits, heq⟩ := members_ok members (depth + 1) hmembers (List.cons_ne_nil _ _) rfl rfl
    rw [heq] at h ⊢
    obtain ⟨outer, below, hbelow, -, -, hend⟩ := containerEnd_ok h
    cases hbelow
    refine ⟨htake, ⟨by omega, ?_⟩, hend.trans ?_⟩
    · rwa [List.length_cons, ← Nat.sub_sub] at hfits
    · simp [grown, Script.value, render, compact]

theorem items_ok : ∀ (items : List Script) {w : Writer} (depth : ℕ),
    ((itemsCalls items).foldl call w).hasFailed = false → w.below ≠ [] →
    w.frame.isObject = false → w.frame.wantsValue = false →
    FitsItems (maxDepth - w.below.length) (itemsValue items) ∧ (itemsCalls items).foldl call w =
      { w.grown (renderItems compact depth (!w.frame.hasChild) (itemsValue items)) with
        frame := { w.frame with hasChild := w.frame.hasChild || !items.isEmpty } }
  | [], w, depth, h, hbelow, hobject, hwants => by
    simp [itemsCalls, itemsValue, renderItems, FitsItems]
  | s :: rest, w, depth, h, hbelow, hobject, hwants => by
    rw [itemsCalls, List.foldl_append] at h ⊢
    obtain ⟨htake, hfits, heq⟩ := script_ok s depth (ok_of_calls h)
    rw [heq] at h ⊢
    obtain ⟨hrest, heq'⟩ := items_ok rest depth h hbelow hobject rfl
    refine ⟨⟨hfits, hrest⟩, heq'.trans ?_⟩
    cases hchild : w.frame.hasChild <;>
      simp [grown, taken, comma, itemsValue, renderItems, compact, hbelow, hobject, hwants, hchild]

theorem members_ok : ∀ (members : List (List UInt8 × Script)) {w : Writer} (depth : ℕ),
    ((membersCalls members).foldl call w).hasFailed = false → w.below ≠ [] →
    w.frame.isObject = true → w.frame.wantsValue = false →
    FitsMembers (maxDepth - w.below.length) (membersValue members) ∧
      (membersCalls members).foldl call w =
        { w.grown (renderMembers compact depth (!w.frame.hasChild) (membersValue members)) with
          frame := { w.frame with hasChild := w.frame.hasChild || !members.isEmpty } }
  | [], w, depth, h, hbelow, hobject, hwants => by
    simp [membersCalls, membersValue, renderMembers, FitsMembers]
  | (name, s) :: rest, w, depth, h, hbelow, hobject, hwants => by
    rw [membersCalls, List.foldl_cons, List.foldl_append] at h ⊢
    have hs := ok_of_calls h
    have hkeyok : (w.writeKey (some name)).hasFailed = false := ok_of_calls hs
    obtain ⟨bytes, hname, -, -, -, hutf, hkey⟩ := writeKey_ok hkeyok
    cases hname
    rw [call, hkey] at h hs ⊢
    obtain ⟨-, hfits, heq⟩ := script_ok s depth hs
    rw [heq] at h ⊢
    obtain ⟨hrest, heq'⟩ := members_ok rest depth h hbelow rfl rfl
    refine ⟨⟨hutf, hfits, hrest⟩, heq'.trans ?_⟩
    cases hchild : w.frame.hasChild <;>
      simp [grown, taken, comma, membersValue, renderMembers, compact, hobject, hwants]

end

/-- What a finished writer has written is its script's tree, rendered. -/
theorem text_of_script {limit : ℕ} {s : Script} (h : (write limit s.calls).done = true) :
    Fits maxDepth s.value ∧ (write limit s.calls).buf.bytes = render compact 0 s.value := by
  have hok : (write limit s.calls).hasFailed = false := by
    simpa using (of_decide_eq_true h).1
  obtain ⟨-, hfits, heq⟩ := script_ok s 0 hok
  refine ⟨hfits, ?_⟩
  rw [write, heq]
  simp [grown, comma]

/-! ## Calls that end in `done` are the calls of a script -/

/-- The calls that lead to a frame inside others : whole values, and what has been written of the
containers that are open. -/
inductive Reaches : List Call → WriteFrame → List WriteFrame → Prop
  | start : Reaches [] {} []
  | root (s : Script) : Reaches s.calls { hasChild := true } []
  | array {calls frame below} (items : List Script) : Reaches calls frame below →
      CanTake frame below → Reaches (calls ++ Call.arrayBegin :: itemsCalls items)
        { hasChild := !items.isEmpty } (taken frame :: below)
  | object {calls frame below} (members : List (List UInt8 × Script)) :
      Reaches calls frame below → CanTake frame below →
      Reaches (calls ++ Call.objectBegin :: membersCalls members)
        { isObject := true, hasChild := !members.isEmpty } (taken frame :: below)
  | key {calls frame below} (members : List (List UInt8 × Script)) (name : List UInt8) :
      Reaches calls frame below → CanTake frame below →
      Reaches (calls ++ Call.objectBegin :: (membersCalls members ++ [Call.key (some name)]))
        { isObject := true, hasChild := true, wantsValue := true } (taken frame :: below)

theorem Reaches.value {calls : List Call} {frame : WriteFrame} {below : List WriteFrame}
    (h : Reaches calls frame below) (htake : CanTake frame below) (s : Script) :
    Reaches (calls ++ s.calls) (taken frame) below := by
  cases h with
  | start => exact .root s
  | root s' => simp [CanTake] at htake
  | array items hreach htake' =>
    have hnext := hreach.array (items ++ [s]) htake'
    have hsome : (items ++ [s]).isEmpty = false := by cases items <;> rfl
    simpa [itemsCalls_append, itemsCalls, taken, hsome] using hnext
  | object members hreach htake' => simp [CanTake] at htake
  | key members name hreach htake' =>
    have hnext := hreach.object (members ++ [(name, s)]) htake'
    have hsome : (members ++ [(name, s)]).isEmpty = false := by cases members <;> rfl
    simpa [membersCalls_append, membersCalls, taken, hsome] using hnext

theorem Reaches.call {calls : List Call} {w : Writer} {c : Call}
    (h : Reaches calls w.frame w.below) (hok : (w.call c).hasFailed = false) :
    Reaches (calls ++ [c]) (w.call c).frame (w.call c).below := by
  cases c with
  | scalar s =>
    obtain ⟨htake, -, heq⟩ := scalar_ok hok 0 0
    rw [heq]
    exact h.value htake (.scalar s)
  | arrayBegin =>
    obtain ⟨htake, -, heq⟩ := containerBegin_ok hok
    rw [Writer.call, heq]
    exact h.array [] htake
  | objectBegin =>
    obtain ⟨htake, -, heq⟩ := containerBegin_ok hok
    rw [Writer.call, heq]
    exact h.object [] htake
  | arrayEnd =>
    obtain ⟨outer, below, hbelow, hkind, hwants, heq⟩ := containerEnd_ok hok
    rw [Writer.call, heq]
    rw [hbelow] at h
    generalize w.frame = frame at h hkind hwants
    cases h with
    | array items hreach htake =>
      have hvalue := hreach.value htake (.array items)
      simpa [Script.calls] using hvalue
    | object members hreach htake => cases hkind
    | key members name hreach htake => cases hkind
  | objectEnd =>
    obtain ⟨outer, below, hbelow, hkind, hwants, heq⟩ := containerEnd_ok hok
    rw [Writer.call, heq]
    rw [hbelow] at h
    generalize w.frame = frame at h hkind hwants
    cases h with
    | array items hreach htake => cases hkind
    | object members hreach htake =>
      have hvalue := hreach.value htake (.object members)
      simpa [Script.calls] using hvalue
    | key members name hreach htake => cases hwants
  | key name =>
    obtain ⟨bytes, rfl, hbelow, hobject, hwants, -, heq⟩ := writeKey_ok hok
    rw [Writer.call, heq]
    change Reaches _ _ w.below
    generalize w.frame = frame at h hobject hwants
    generalize w.below = below at h hbelow
    cases h with
    | start => exact absurd rfl hbelow
    | root s => exact absurd rfl hbelow
    | array items hreach htake => cases hobject
    | object members hreach htake =>
      have hnext := hreach.key members bytes htake
      simpa using hnext
    | key members name hreach htake => cases hwants
  | noString =>
    rcases usable_eq w with ⟨-, husable⟩ | ⟨-, w', husable, hfailed⟩
    · simp [Writer.call, husable] at hok
    · simp [Writer.call, husable, hfailed] at hok

theorem reaches_calls : ∀ {calls calls' : List Call} {w : Writer},
    Reaches calls w.frame w.below → (calls'.foldl Writer.call w).hasFailed = false →
    Reaches (calls ++ calls') (calls'.foldl Writer.call w).frame (calls'.foldl Writer.call w).below
  | calls, [], w, h, _ => by
    rw [List.append_nil]
    exact h
  | calls, c :: calls', w, h, hok => by
    rw [List.foldl_cons] at hok ⊢
    have hnext := reaches_calls (h.call (ok_of_calls hok)) hok
    rwa [List.append_assoc] at hnext

/-- A writer that finishes was called as some script. -/
theorem exists_script_of_done {limit : ℕ} {calls : List Call}
    (h : (write limit calls).done = true) : ∃ s : Script, s.calls = calls := by
  obtain ⟨hok, hbelow, hchild⟩ := of_decide_eq_true h
  have hok' : (calls.foldl call { buf := { limit } }).hasFailed = false :=
    eq_false_of_ne_true hok
  have hreach := reaches_calls Reaches.start hok'
  change Reaches _ (write limit calls).frame (write limit calls).below at hreach
  rw [hbelow] at hreach
  generalize (write limit calls).frame = frame at hreach hchild
  rw [List.nil_append] at hreach
  cases hreach with
  | start => cases hchild
  | root s => exact ⟨s, rfl⟩

/-! ## What there is room for is written -/

def Room (w : Writer) (bytes : List UInt8) : Prop :=
  w.hasFailed = false ∧ w.buf.bytes.length + bytes.length ≤ w.buf.limit

namespace Room

variable {w : Writer}

variable {bytes : List UInt8}

theorem left {bytes' : List UInt8} (h : w.Room (bytes ++ bytes')) : w.Room bytes := by
  obtain ⟨hok, hroom⟩ := h
  rw [List.length_append] at hroom
  exact ⟨hok, by omega⟩

theorem right {bytes' : List UInt8} (h : w.Room (bytes ++ bytes')) :
    (w.grown bytes).Room bytes' := by
  obtain ⟨hok, hroom⟩ := h
  refine ⟨hok, ?_⟩
  simp only [grown, List.length_append] at hroom ⊢
  omega

theorem framed (h : w.Room bytes) (frame : WriteFrame) (below : List WriteFrame) :
    Room { w with frame := frame, below := below } bytes :=
  h

theorem usable_ok (h : w.Room bytes) : w.usable = .ok w := by
  rcases usable_eq w with ⟨-, heq⟩ | ⟨hfailed, -⟩
  · exact heq
  · rw [h.1] at hfailed
    cases hfailed

theorem add_eq (h : w.Room bytes) : w.add bytes = w.grown bytes := by
  obtain ⟨hok, hroom⟩ := h
  have hbuf : w.buf.failed = false := by simpa using (not_or.1 (of_decide_eq_false hok)).2
  unfold Writer.add Buf.add
  split_ifs with hnothing hlimit
  · obtain rfl := hnothing.resolve_right (by simp [hbuf])
    exact (grown_nil w).symm
  · omega
  · rfl

theorem beginValue_eq (htake : CanTake w.frame w.below) (h : w.Room (comma w.frame w.below)) :
    w.beginValue = .ok { w.grown (comma w.frame w.below) with frame := taken w.frame } := by
  rw [← h.add_eq]
  unfold CanTake at htake
  simp only [beginValue, h.usable_ok, bind, Except.bind]
  by_cases hbelow : w.below = []
  · rw [if_pos hbelow] at htake ⊢
    simp [htake, comma, hbelow, add_nil, takePlace, taken]
  · rw [if_neg hbelow] at htake ⊢
    cases hobject : w.frame.isObject with
    | true => simp [htake hobject, comma, hobject, add_nil, takePlace, taken]
    | false =>
      cases hchild : w.frame.hasChild with
      | true => simp [comma, hbelow, hobject, hchild, takePlace, taken, add]
      | false => simp [comma, hchild, add_nil, takePlace, taken]

theorem writeBytes_eq (bytes : List UInt8) : ∀ {w : Writer} {text : List UInt8},
    escaped bytes = some text → w.Room text → w.writeBytes bytes = .ok (w.grown text) := by
  fun_induction escaped bytes with
  | case1 =>
    intro w text htext _
    cases htext
    rw [writeBytes, grown_nil]
  | case2 c rest hesc =>
    intro w text htext
    cases htext
  | case3 c rest piece step hesc ih =>
    intro w text htext h
    obtain ⟨tail, htail, rfl⟩ := Option.map_eq_some_iff.1 htext
    rw [writeBytes, hesc]
    dsimp only
    rw [h.left.add_eq, ih htail h.right, grown_grown]

theorem writeQuoted_eq (hutf : (escaped bytes).isSome) (h : w.Room (quoted bytes)) :
    w.writeQuoted bytes = w.grown (quoted bytes) := by
  obtain ⟨text, htext⟩ := Option.isSome_iff_exists.1 hutf
  have hquoted : quoted bytes = [ascii '"'] ++ (text ++ [ascii '"']) := by
    rw [quoted, htext]
    rfl
  rw [hquoted] at h
  rw [writeQuoted, h.left.add_eq, writeBytes_eq bytes htext h.right.left]
  dsimp only
  rw [h.right.right.add_eq, grown_grown, grown_grown, hquoted]

theorem scalar_eq {s : Scalar} {room : ℕ} (depth : ℕ) (htake : CanTake w.frame w.below)
    (hfits : Fits room s.value)
    (h : w.Room (comma w.frame w.below ++ render compact depth s.value)) :
    w.call (.scalar s) = { w.grown (comma w.frame w.below ++ render compact depth s.value) with
      frame := taken w.frame } := by
  have hafter := h.right.framed (taken w.frame) w.below
  rw [call, writeScalar, h.left.beginValue_eq htake, ← grown_grown]
  cases s with
  | string text => exact hafter.writeQuoted_eq hfits
  | stringBytes bytes => exact hafter.writeQuoted_eq hfits
  | int n | uint n | bool b | null => exact hafter.add_eq

theorem containerBegin_eq {mark : Char} (isObject : Bool) (htake : CanTake w.frame w.below)
    (hdeep : w.below.length < maxDepth) (h : w.Room (comma w.frame w.below ++ [ascii mark])) :
    w.containerBegin mark isObject = { w.grown (comma w.frame w.below ++ [ascii mark]) with
      frame := { isObject }, below := taken w.frame :: w.below } := by
  have hadd :
      add { w.grown (comma w.frame w.below) with frame := taken w.frame } [ascii mark] = _ :=
    (h.right.framed (taken w.frame) w.below).add_eq
  rw [containerBegin, h.left.beginValue_eq htake, ← grown_grown]
  dsimp only
  rw [if_neg (by simpa [grown] using hdeep), hadd]
  rfl

theorem containerEnd_eq {mark : Char} {outer : WriteFrame} {below : List WriteFrame}
    (hbelow : w.below = outer :: below) (hwants : w.frame.wantsValue = false)
    (h : w.Room [ascii mark]) : w.containerEnd mark w.frame.isObject =
      { w.grown [ascii mark] with frame := outer, below := below } := by
  simp only [containerEnd, h.usable_ok, hbelow, hwants, ne_eq, not_true_eq_false, if_false,
    h.add_eq, Bool.false_eq_true]

theorem writeKey_eq (hbelow : w.below ≠ []) (hobject : w.frame.isObject = true)
    (hwants : w.frame.wantsValue = false) (hutf : (escaped (cString bytes)).isSome)
    (h : w.Room ((if w.frame.hasChild then [ascii ','] else []) ++
      (quoted (cString bytes) ++ [ascii ':']))) :
    w.writeKey (some bytes) =
      { w.grown ((if w.frame.hasChild then [ascii ','] else []) ++
          (quoted (cString bytes) ++ [ascii ':'])) with
        frame := { isObject := true, hasChild := true, wantsValue := true } } := by
  have hcomma : (if w.frame.hasChild then w.add [ascii ','] else w) =
      w.grown (if w.frame.hasChild then [ascii ','] else []) := by
    rw [← h.left.add_eq]
    split_ifs
    · rfl
    · exact (add_nil w).symm
  have houtside : ¬(w.below = [] ∨ ¬w.frame.isObject = true) := by simp [hbelow, hobject]
  rw [writeKey, h.usable_ok]
  dsimp only
  rw [if_neg houtside, if_neg (by simp [hwants]), hcomma, h.right.left.writeQuoted_eq hutf,
    h.right.right.add_eq, grown_grown, grown_grown]
  simp [grown, hobject]

end Room

mutual

theorem script_room : ∀ (s : Script) {w : Writer} (depth : ℕ), CanTake w.frame w.below →
    Fits (maxDepth - w.below.length) s.value →
    w.Room (comma w.frame w.below ++ render compact depth s.value) →
    s.calls.foldl call w = { w.grown (comma w.frame w.below ++ render compact depth s.value) with
      frame := taken w.frame }
  | .scalar s, _, depth, htake, hfits, h => h.scalar_eq depth htake hfits
  | .array items, w, depth, htake, hfits, h => by
    have htext : comma w.frame w.below ++ render compact depth (Script.array items).value =
        (comma w.frame w.below ++ [ascii '[']) ++
          (renderItems compact (depth + 1) true (itemsValue items) ++ [ascii ']']) := by
      simp [Script.value, render, compact]
    rw [htext] at h
    obtain ⟨hdeep, hitems⟩ := hfits
    set inside : Writer := { w.grown (comma w.frame w.below ++ [ascii '[']) with
      frame := { isObject := false }, below := taken w.frame :: w.below } with hinside
    have hbegin : w.containerBegin '[' false = inside :=
      h.left.containerBegin_eq false htake (by omega)
    have hinner : inside.Room (renderItems compact (depth + 1) true (itemsValue items) ++
        [ascii ']']) := h.right
    have hrun := items_room items (depth + 1) (w := inside) (List.cons_ne_nil _ _) rfl rfl
      (by rwa [hinside, List.length_cons, ← Nat.sub_sub]) hinner.left
    have hend := Room.containerEnd_eq
      (w := { inside.grown (renderItems compact (depth + 1) true (itemsValue items)) with
        frame := { isObject := false, hasChild := !items.isEmpty } }) rfl rfl hinner.right
    rw [Script.calls, List.foldl_cons, List.foldl_append, call, hbegin, hrun, htext]
    refine hend.trans ?_
    simp [hinside, grown]
  | .object members, w, depth, htake, hfits, h => by
    have htext : comma w.frame w.below ++ render compact depth (Script.object members).value =
        (comma w.frame w.below ++ [ascii '\x7b']) ++
          (renderMembers compact (depth + 1) true (membersValue members) ++ [ascii '\x7d']) := by
      simp [Script.value, render, compact]
    rw [htext] at h
    obtain ⟨hdeep, hmembers⟩ := hfits
    set inside : Writer := { w.grown (comma w.frame w.below ++ [ascii '\x7b']) with
      frame := { isObject := true }, below := taken w.frame :: w.below } with hinside
    have hbegin : w.containerBegin '\x7b' true = inside :=
      h.left.containerBegin_eq true htake (by omega)
    have hinner : inside.Room (renderMembers compact (depth + 1) true (membersValue members) ++
        [ascii '\x7d']) := h.right
    have hrun := members_room members (depth + 1) (w := inside) (List.cons_ne_nil _ _) rfl rfl
      (by rwa [hinside, List.length_cons, ← Nat.sub_sub]) hinner.left
    have hend := Room.containerEnd_eq
      (w := { inside.grown (renderMembers compact (depth + 1) true (membersValue members)) with
        frame := { isObject := true, hasChild := !members.isEmpty } }) rfl rfl hinner.right
    rw [Script.calls, List.foldl_cons, List.foldl_append, call, hbegin, hrun, htext]
    refine hend.trans ?_
    simp [hinside, grown]

theorem items_room : ∀ (items : List Script) {w : Writer} (depth : ℕ), w.below ≠ [] →
    w.frame.isObject = false → w.frame.wantsValue = false →
    FitsItems (maxDepth - w.below.length) (itemsValue items) →
    w.Room (renderItems compact depth (!w.frame.hasChild) (itemsValue items)) →
    (itemsCalls items).foldl call w =
      { w.grown (renderItems compact depth (!w.frame.hasChild) (itemsValue items)) with
        frame := { w.frame with hasChild := w.frame.hasChild || !items.isEmpty } }
  | [], w, depth, hbelow, hobject, hwants, hfits, h => by
    simp [itemsCalls, itemsValue, renderItems]
  | s :: rest, w, depth, hbelow, hobject, hwants, hfits, h => by
    have htext : renderItems compact depth (!w.frame.hasChild) (itemsValue (s :: rest)) =
        (comma w.frame w.below ++ render compact depth s.value) ++
          renderItems compact depth false (itemsValue rest) := by
      cases hchild : w.frame.hasChild <;>
        simp [itemsValue, renderItems, comma, compact, hbelow, hobject, hchild]
    rw [htext] at h
    have htake : CanTake w.frame w.below := by simp [CanTake, hbelow, hobject]
    have hrest := items_room rest depth
      (w := { w.grown (comma w.frame w.below ++ render compact depth s.value) with
        frame := taken w.frame }) hbelow hobject rfl hfits.2 h.right
    rw [itemsCalls, List.foldl_append, script_room s depth htake hfits.1 h.left, hrest, htext,
      ← grown_grown]
    simp [grown, taken, hwants]

theorem members_room : ∀ (members : List (List UInt8 × Script)) {w : Writer} (depth : ℕ),
    w.below ≠ [] → w.frame.isObject = true → w.frame.wantsValue = false →
    FitsMembers (maxDepth - w.below.length) (membersValue members) →
    w.Room (renderMembers compact depth (!w.frame.hasChild) (membersValue members)) →
    (membersCalls members).foldl call w =
      { w.grown (renderMembers compact depth (!w.frame.hasChild) (membersValue members)) with
        frame := { w.frame with hasChild := w.frame.hasChild || !members.isEmpty } }
  | [], w, depth, hbelow, hobject, hwants, hfits, h => by
    simp [membersCalls, membersValue, renderMembers]
  | (name, s) :: rest, w, depth, hbelow, hobject, hwants, hfits, h => by
    have htext : renderMembers compact depth (!w.frame.hasChild)
          (membersValue ((name, s) :: rest)) =
        ((if w.frame.hasChild then [ascii ','] else []) ++
            (quoted (cString name) ++ [ascii ':'])) ++
          (render compact depth s.value ++
            renderMembers compact depth false (membersValue rest)) := by
      cases hchild : w.frame.hasChild <;> simp [membersValue, renderMembers, compact]
    rw [htext] at h
    set keyed : Writer := { w.grown ((if w.frame.hasChild then [ascii ','] else []) ++
        (quoted (cString name) ++ [ascii ':'])) with
      frame := { isObject := true, hasChild := true, wantsValue := true } } with hkeyed
    have hkey : w.writeKey (some name) = keyed :=
      h.left.writeKey_eq hbelow hobject hwants hfits.1
    have hafter : keyed.Room (comma keyed.frame keyed.below ++ (render compact depth s.value ++
        renderMembers compact depth false (membersValue rest))) := by
      have hnone : comma keyed.frame keyed.below = [] := by simp [hkeyed, comma]
      rw [hnone]
      exact h.right
    rw [← List.append_assoc] at hafter
    have htake : CanTake keyed.frame keyed.below := by
      simp [CanTake, hkeyed, grown, hbelow]
    have hrest := members_room rest depth
      (w := { keyed.grown (comma keyed.frame keyed.below ++ render compact depth s.value) with
        frame := taken keyed.frame }) hbelow rfl rfl hfits.2.2 hafter.right
    rw [membersCalls, List.foldl_cons, List.foldl_append, call, hkey,
      script_room s depth htake hfits.2.1 hafter.left, hrest, htext, ← grown_grown]
    simp [hkeyed, grown, taken, comma, hobject, hwants]

end

theorem done_of_fits {limit : ℕ} {s : Script} (hfits : Fits maxDepth s.value)
    (hroom : (render compact 0 s.value).length ≤ limit) :
    (write limit s.calls).done = true ∧
      (write limit s.calls).buf.bytes = render compact 0 s.value := by
  have hstart : Room { buf := { limit } } (render compact 0 s.value) := ⟨rfl, by simpa using hroom⟩
  have heq := script_room s 0 (w := { buf := { limit } }) rfl hfits hstart
  rw [write, heq]
  exact ⟨rfl, rfl⟩

end Writer

end Netcfgd.Json
