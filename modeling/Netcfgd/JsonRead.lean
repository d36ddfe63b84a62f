import Netcfgd.JsonWrite

/-!
# Reading JSON, and laying it out

`src/client/ncfg_json.c` and `ncfg_json_pretty`. The reader goes through its input once, with a
stack of the containers that are open, and makes a flat array of nodes linked by index : a
container to its first child, a child to the next one. What it keeps of a string or a number is
the bytes themselves, which is what the offset and the length of a node name in the buffer the
reader fills from the front. Every turn of its loop takes something off the input
(`step_shorter`), so it ends.

What a caller sees of the nodes is `Holds` : the value at an index, children in the order of
their links.
-/

namespace Netcfgd.Json

/-! ## Strings and numbers -/

/-- Why the reader refuses, and what it had not read by then. -/
structure Refusal where
  what : String
  rest : List UInt8
  deriving DecidableEq, Repr

def isBlank (c : UInt8) : Bool := c = 0x20 || c = 0x09 || c = 0x0d || c = 0x0a

/-- `skip_space`. -/
def skipSpace (input : List UInt8) : List UInt8 := input.dropWhile isBlank

/-- `hex_nibble`. -/
def hexNibble (c : UInt8) : Option ℕ :=
  if 48 ≤ c ∧ c ≤ 57 then some (c.toNat - 48)
  else if 97 ≤ c ∧ c ≤ 102 then some (c.toNat - 87)
  else if 65 ≤ c ∧ c ≤ 70 then some (c.toNat - 55)
  else none

/-- `read_code_unit`. -/
def readCodeUnit : List UInt8 → Option (ℕ × List UInt8)
  | a :: b :: c :: d :: rest =>
    match hexNibble a, hexNibble b, hexNibble c, hexNibble d with
    | some a, some b, some c, some d => some (((a * 16 + b) * 16 + c) * 16 + d, rest)
    | _, _, _, _ => none
  | _ => none

/-- `write_utf8`. -/
def writeUtf8 (codePoint : ℕ) : List UInt8 :=
  if codePoint < 0x80 then [UInt8.ofNat codePoint]
  else if codePoint < 0x800 then
    [UInt8.ofNat (0xc0 + codePoint / 64), UInt8.ofNat (0x80 + codePoint % 64)]
  else if codePoint < 0x10000 then
    [UInt8.ofNat (0xe0 + codePoint / 4096), UInt8.ofNat (0x80 + codePoint / 64 % 64),
      UInt8.ofNat (0x80 + codePoint % 64)]
  else
    [UInt8.ofNat (0xf0 + codePoint / 262144), UInt8.ofNat (0x80 + codePoint / 4096 % 64),
      UInt8.ofNat (0x80 + codePoint / 64 % 64), UInt8.ofNat (0x80 + codePoint % 64)]

/-- What follows `\u`, with its other half where it is half of a pair. -/
def readUnicode (input : List UInt8) : Except Refusal (List UInt8 × List UInt8) :=
  match readCodeUnit input with
  | none => .error ⟨"a \\u escape that is not four hex digits", input⟩
  | some (unit, rest) =>
    if 0xd800 ≤ unit ∧ unit ≤ 0xdbff then
      match rest with
      | slash :: u :: rest =>
        if slash = ascii '\\' ∧ u = ascii 'u' then
          match readCodeUnit rest with
          | none => .error ⟨"a surrogate pair whose second half is not one", rest⟩
          | some (low, rest) =>
            if 0xdc00 ≤ low ∧ low ≤ 0xdfff then
              .ok (writeUtf8 (0x10000 + (unit - 0xd800) * 1024 + (low - 0xdc00)), rest)
            else .error ⟨"a surrogate pair whose second half is not one", rest⟩
        else .error ⟨"a high surrogate with no low surrogate", slash :: u :: rest⟩
      | rest => .error ⟨"a high surrogate with no low surrogate", rest⟩
    else if 0xdc00 ≤ unit ∧ unit ≤ 0xdfff then
      .error ⟨"a low surrogate with no high surrogate", rest⟩
    else .ok (writeUtf8 unit, rest)

def unescape : List UInt8 → Except Refusal (List UInt8 × List UInt8)
  | [] => .error ⟨"an escape at the end of the input", []⟩
  | e :: rest =>
    if e = ascii '"' then .ok ([ascii '"'], rest)
    else if e = ascii '\\' then .ok ([ascii '\\'], rest)
    else if e = ascii '/' then .ok ([ascii '/'], rest)
    else if e = ascii 'b' then .ok ([0x08], rest)
    else if e = ascii 'f' then .ok ([0x0c], rest)
    else if e = ascii 'n' then .ok ([0x0a], rest)
    else if e = ascii 'r' then .ok ([0x0d], rest)
    else if e = ascii 't' then .ok ([0x09], rest)
    else if e = ascii 'u' then readUnicode rest
    else .error ⟨"an escape that is not one of JSON's", rest⟩

/-- `ncfg_json_type_t`. -/
inductive NodeType
  | null
  | bool
  | number
  | string
  | array
  | object
  deriving DecidableEq, Repr

/-- `ncfg_json_node_t`. -/
structure Node where
  type : NodeType
  key : Option (List UInt8) := none
  value : List UInt8 := []
  boolValue : Bool := false
  firstChild : Option ℕ := none
  childCount : ℕ := 0
  nextSibling : Option ℕ := none
  deriving DecidableEq, Repr

/-- `frame_t`. -/
structure OpenFrame where
  node : ℕ
  lastChild : Option ℕ := none
  isObject : Bool
  deriving DecidableEq, Repr

/-- What the reader looks for next : a value, what follows one, or the name of a member. -/
inductive Expect
  | value
  | after
  | key
  deriving DecidableEq, Repr

structure Reader where
  input : List UInt8
  nodes : List Node := []
  stack : List OpenFrame := []
  pending : Option (List UInt8) := none
  expect : Expect := .value
  deriving DecidableEq, Repr

theorem readCodeUnit_shorter {input rest : List UInt8} {unit : ℕ}
    (h : readCodeUnit input = some (unit, rest)) : rest.length < input.length := by
  unfold readCodeUnit at h
  split at h
  · split at h
    · cases h
      simp
      omega
    · cases h
  · cases h

theorem readUnicode_shorter {input rest piece : List UInt8}
    (h : readUnicode input = .ok (piece, rest)) : rest.length < input.length := by
  unfold readUnicode at h
  split at h
  · cases h
  · rename_i unit rest₁ hunit
    have h₁ := readCodeUnit_shorter hunit
    split_ifs at h
    · split at h
      · split_ifs at h
        split at h
        · cases h
        · rename_i low rest₃ hlow
          have h₃ := readCodeUnit_shorter hlow
          split_ifs at h
          simp only [Except.ok.injEq, Prod.mk.injEq] at h
          obtain ⟨-, rfl⟩ := h
          simp only [List.length_cons] at h₁
          omega
      · cases h
    · simp only [Except.ok.injEq, Prod.mk.injEq] at h
      obtain ⟨-, rfl⟩ := h
      exact h₁

theorem rest_of_ite {c : Prop} [Decidable c] {piece piece' rest rest' : List UInt8}
    {e : Except Refusal (List UInt8 × List UInt8)}
    (h : (if c then .ok (piece', rest') else e) = .ok (piece, rest)) :
    rest = rest' ∨ e = .ok (piece, rest) := by
  by_cases hc : c
  · rw [if_pos hc] at h
    cases h
    exact .inl rfl
  · exact .inr (by rwa [if_neg hc] at h)

theorem unescape_shorter {input rest piece : List UInt8}
    (h : unescape input = .ok (piece, rest)) : rest.length < input.length := by
  unfold unescape at h
  split at h
  · cases h
  · rename_i e rest₁
    iterate 8
      rcases rest_of_ite h with rfl | h
      · exact Nat.lt_succ_self _
    split_ifs at h
    exact (readUnicode_shorter h).trans (Nat.lt_succ_self _)

/-- `parse_string`, after the opening quote : what is kept, and what is left. -/
def parseString (out : List UInt8) : List UInt8 → Except Refusal (List UInt8 × List UInt8)
  | [] => .error ⟨"a string with no closing quote", []⟩
  | c :: rest =>
    if c = ascii '"' then .ok (out, rest)
    else if c < 0x20 then .error ⟨"a control character in a string", c :: rest⟩
    else if c ≠ ascii '\\' then parseString (out ++ [c]) rest
    else match _h : unescape rest with
      | .error why => .error why
      | .ok (piece, rest') => parseString (out ++ piece) rest'
  termination_by input => input.length
  decreasing_by
    · simp
    · have := unescape_shorter _h
      simp only [List.length_cons]
      omega

def isDigit (c : UInt8) : Bool := 48 ≤ c && c ≤ 57

def someDigits (input : List UInt8) (what : String) : Except Refusal (List UInt8) :=
  if input.takeWhile isDigit = [] then .error ⟨what, input⟩ else .ok (input.dropWhile isDigit)

def wholePart : List UInt8 → Except Refusal (List UInt8)
  | [] => .error ⟨"a number with no digits", []⟩
  | c :: rest =>
    if c = ascii '0' then .ok rest
    else if 49 ≤ c ∧ c ≤ 57 then .ok (rest.dropWhile isDigit)
    else .error ⟨"a number with no digits", c :: rest⟩

def fraction : List UInt8 → Except Refusal (List UInt8)
  | [] => .ok []
  | c :: rest =>
    if c = ascii '.' then someDigits rest "a decimal point with no digits after it"
    else .ok (c :: rest)

def exponent : List UInt8 → Except Refusal (List UInt8)
  | [] => .ok []
  | c :: rest =>
    if c = ascii 'e' ∨ c = ascii 'E' then
      match rest with
      | sign :: rest' =>
        if sign = ascii '+' ∨ sign = ascii '-' then someDigits rest' "an exponent with no digits"
        else someDigits rest "an exponent with no digits"
      | [] => .error ⟨"an exponent with no digits", []⟩
    else .ok (c :: rest)

def unsigned : List UInt8 → List UInt8
  | [] => []
  | c :: rest => if c = ascii '-' then rest else c :: rest

/-- `parse_number` : the text of the number, and what is left. -/
def parseNumber (input : List UInt8) : Except Refusal (List UInt8 × List UInt8) := do
  let rest ← wholePart (unsigned input)
  let rest ← fraction rest
  let rest ← exponent rest
  return (input.take (input.length - rest.length), rest)

/-! ## Nodes -/

/-- The most nodes the array grows to, an index being 32 bits and the array doubling. -/
def maxNodes : ℕ := 2147483648

def attach (nodes : List Node) (top : OpenFrame) (index : ℕ) : List Node :=
  (match top.lastChild with
    | none => nodes.modify top.node fun n => { n with firstChild := some index }
    | some last => nodes.modify last fun n => { n with nextSibling := some index }).modify top.node
    fun n => { n with childCount := n.childCount + 1 }

namespace Reader

/-- A new node, with the name that is waiting, attached to what is open. -/
def place (r : Reader) (node : Node) : Reader :=
  let nodes := r.nodes ++ [{ node with key := r.pending }]
  match r.stack with
  | [] => { r with nodes, pending := none }
  | top :: below =>
    { r with
      nodes := attach nodes top r.nodes.length
      stack := { top with lastChild := some r.nodes.length } :: below
      pending := none }

def scalar (r : Reader) (node : Node) (rest : List UInt8) : Reader :=
  { r.place node with input := rest, expect := .after }

def closer (isObject : Bool) : UInt8 := if isObject then ascii '\x7d' else ascii ']'

/-- A container that was opened : closed at once where nothing is in it. -/
def opened (r : Reader) (isObject : Bool) (rest : List UInt8) : Reader :=
  let index := r.nodes.length
  let r := r.place { type := if isObject then .object else .array }
  match skipSpace rest with
  | c :: rest' =>
    if c = closer isObject then { r with input := rest', expect := .after }
    else { r with
      input := c :: rest'
      stack := { node := index, isObject } :: r.stack
      expect := if isObject then .key else .value }
  | [] => { r with
      input := []
      stack := { node := index, isObject } :: r.stack
      expect := if isObject then .key else .value }

def literal (word : String) (input : List UInt8) : Option (List UInt8) :=
  if (asciis word).isPrefixOf input then some (input.drop (asciis word).length) else none

def readValue (r : Reader) : Except Refusal Reader :=
  match skipSpace r.input with
  | [] => .error ⟨"a value that stops in the middle", []⟩
  | c :: rest =>
    if c = ascii '\x7b' ∨ c = ascii '[' then
      if maxDepth ≤ r.stack.length then
        .error ⟨"a document nested deeper than this reads", c :: rest⟩
      else if maxNodes ≤ r.nodes.length then .error ⟨"too many values", rest⟩
      else .ok (r.opened (c = ascii '\x7b') rest)
    else if maxNodes ≤ r.nodes.length then .error ⟨"too many values", c :: rest⟩
    else if c = ascii '"' then
      match parseString [] rest with
      | .error why => .error why
      | .ok (bytes, rest) => .ok (r.scalar { type := .string, value := bytes } rest)
    else if c = ascii 't' ∨ c = ascii 'f' then
      match literal "true" (c :: rest), literal "false" (c :: rest) with
      | some rest, _ => .ok (r.scalar { type := .bool, boolValue := true } rest)
      | none, some rest => .ok (r.scalar { type := .bool } rest)
      | none, none => .error ⟨"a word that is not true or false", c :: rest⟩
    else if c = ascii 'n' then
      match literal "null" (c :: rest) with
      | some rest => .ok (r.scalar { type := .null } rest)
      | none => .error ⟨"a word that is not null", c :: rest⟩
    else match parseNumber (c :: rest) with
      | .error why => .error why
      | .ok (text, rest) => .ok (r.scalar { type := .number, value := text } rest)

def readKey (r : Reader) : Except Refusal Reader :=
  match skipSpace r.input with
  | [] => .error ⟨"an object member with no name", []⟩
  | c :: rest =>
    if c = ascii '"' then
      match parseString [] rest with
      | .error why => .error why
      | .ok (name, rest) =>
        match skipSpace rest with
        | [] => .error ⟨"a member name with no colon after it", []⟩
        | c :: rest =>
          if c = ascii ':' then .ok { r with input := rest, pending := some name, expect := .value }
          else .error ⟨"a member name with no colon after it", c :: rest⟩
    else .error ⟨"an object member with no name", c :: rest⟩

def readAfter (r : Reader) (top : OpenFrame) (below : List OpenFrame) : Except Refusal Reader :=
  match skipSpace r.input with
  | [] => .error ⟨"a container that is never closed", []⟩
  | c :: rest =>
    if c = ascii ',' then
      .ok { r with input := rest, expect := if top.isObject then .key else .value }
    else if c = closer top.isObject then .ok { r with input := rest, stack := below }
    else .error ⟨"a container with something other than a comma or a close", c :: rest⟩

/-- One turn of the loop of `ncfg_json_parse` : where it goes on from, or the nodes. -/
def step (r : Reader) : Except Refusal (Reader ⊕ List Node) :=
  match r.expect, r.stack with
  | .value, _ => r.readValue.map .inl
  | .key, _ => r.readKey.map .inl
  | .after, top :: below => (r.readAfter top below).map .inl
  | .after, [] =>
    match skipSpace r.input with
    | [] => .ok (.inr r.nodes)
    | rest => .error ⟨"something after the end of the value", rest⟩

end Reader

/-! ## The loop ends -/

theorem skipSpace_length (input : List UInt8) : (skipSpace input).length ≤ input.length :=
  (List.dropWhile_sublist _).length_le

theorem parseString_shorter (input : List UInt8) : ∀ {out bytes rest : List UInt8},
    parseString out input = .ok (bytes, rest) → rest.length < input.length := by
  induction hn : input.length using Nat.strongRecOn generalizing input with
  | _ n ih =>
    intro out bytes rest h
    subst hn
    cases input with
    | nil =>
      rw [parseString] at h
      cases h
    | cons c input =>
      rw [parseString] at h
      split_ifs at h
      · cases h
        simp
      · have hshorter := ih input.length (by simp) input rfl h
        simp only [List.length_cons]
        omega
      · split at h
        · cases h
        · rename_i piece rest' hpiece
          have hpiece' := unescape_shorter hpiece
          have hshorter := ih rest'.length (by simp; omega) rest' rfl h
          simp only [List.length_cons]
          omega

variable {input rest : List UInt8}

theorem someDigits_shorter {what : String} (h : someDigits input what = .ok rest) :
    rest.length ≤ input.length := by
  unfold someDigits at h
  split_ifs at h
  cases h
  exact (List.dropWhile_sublist _).length_le

theorem wholePart_shorter (h : wholePart input = .ok rest) :
    rest.length < input.length := by
  unfold wholePart at h
  split at h
  · cases h
  · split_ifs at h
    · cases h
      simp
    · cases h
      have := (List.dropWhile_sublist (l := ‹_›) isDigit).length_le
      simp only [List.length_cons]
      omega

theorem fraction_shorter (h : fraction input = .ok rest) :
    rest.length ≤ input.length := by
  unfold fraction at h
  split at h
  · cases h
    exact Nat.le_refl _
  · split_ifs at h
    · have := someDigits_shorter h
      simp only [List.length_cons]
      omega
    · cases h
      exact Nat.le_refl _

theorem exponent_shorter (h : exponent input = .ok rest) :
    rest.length ≤ input.length := by
  unfold exponent at h
  split at h
  · cases h
    exact Nat.le_refl _
  · split_ifs at h
    · split at h
      · split_ifs at h
        all_goals
          have := someDigits_shorter h
          simp only [List.length_cons] at this ⊢
          omega
      · cases h
    · cases h
      exact Nat.le_refl _

theorem parseNumber_shorter {text : List UInt8} (h : parseNumber input = .ok (text, rest)) :
    rest.length < input.length := by
  simp only [parseNumber, bind, Except.bind] at h
  split at h
  · cases h
  · rename_i rest₁ h₁
    split at h
    · cases h
    · rename_i rest₂ h₂
      split at h
      · cases h
      · rename_i rest₃ h₃
        cases h
        have hw := wholePart_shorter h₁
        have hf := fraction_shorter h₂
        have he := exponent_shorter h₃
        have hsign : (unsigned input).length ≤ input.length := by
          unfold unsigned
          split
          · exact Nat.le_refl _
          · split_ifs
            · simp
            · exact Nat.le_refl _
        omega

namespace Reader

theorem literal_shorter {word : String} {input rest : List UInt8} (hword : asciis word ≠ [])
    (h : literal word input = some rest) : rest.length < input.length := by
  unfold literal at h
  split_ifs at h with hpre
  cases h
  have hlen := (List.isPrefixOf_iff_prefix.1 hpre).length_le
  have hpos := List.length_pos_iff.2 hword
  rw [List.length_drop]
  omega

theorem opened_shorter (r : Reader) (isObject : Bool) (rest : List UInt8) :
    (r.opened isObject rest).input.length ≤ rest.length := by
  have hskip := skipSpace_length rest
  unfold opened
  dsimp only
  split
  · rename_i c rest' heq
    rw [heq, List.length_cons] at hskip
    by_cases hclose : c = closer isObject
    · rw [if_pos hclose]
      exact Nat.le_of_succ_le hskip
    · rw [if_neg hclose]
      exact hskip
  · simp

variable {r r' : Reader}

theorem readValue_shorter (h : r.readValue = .ok r') :
    r'.input.length < r.input.length := by
  have hskip := skipSpace_length r.input
  unfold readValue at h
  split at h
  · cases h
  · rename_i c rest heq
    rw [heq, List.length_cons] at hskip
    split_ifs at h
    · cases h
      have := opened_shorter r (c = ascii '\x7b') rest
      omega
    · split at h
      · cases h
      · rename_i bytes rest' hstring
        cases h
        have := parseString_shorter _ hstring
        simp only [scalar]
        omega
    · have htrue {rest' : List UInt8} (h : literal "true" (c :: rest) = some rest') :
          rest'.length < r.input.length := by
        have := literal_shorter (by decide) h
        simp only [List.length_cons] at this
        omega
      have hfalse {rest' : List UInt8} (h : literal "false" (c :: rest) = some rest') :
          rest'.length < r.input.length := by
        have := literal_shorter (by decide) h
        simp only [List.length_cons] at this
        omega
      split at h
      · rename_i hl
        cases h
        exact htrue hl
      · rename_i hl
        cases h
        exact hfalse hl
      · cases h
    · split at h
      · rename_i rest' hl
        cases h
        have := literal_shorter (by decide) hl
        simp only [scalar, List.length_cons] at this ⊢
        omega
      · cases h
    · split at h
      · cases h
      · rename_i text rest' hnumber
        cases h
        have := parseNumber_shorter hnumber
        simp only [scalar, List.length_cons] at this ⊢
        omega

theorem readKey_shorter (h : r.readKey = .ok r') :
    r'.input.length < r.input.length := by
  have hskip := skipSpace_length r.input
  unfold readKey at h
  split at h
  · cases h
  · rename_i c rest heq
    rw [heq, List.length_cons] at hskip
    split_ifs at h
    split at h
    · cases h
    · rename_i name rest' hstring
      have hstring' := parseString_shorter _ hstring
      have hskip' := skipSpace_length rest'
      split at h
      · cases h
      · rename_i c' rest'' heq'
        rw [heq', List.length_cons] at hskip'
        split_ifs at h
        cases h
        simp only
        omega

theorem readAfter_shorter {top : OpenFrame} {below : List OpenFrame}
    (h : r.readAfter top below = .ok r') : r'.input.length < r.input.length := by
  have hskip := skipSpace_length r.input
  unfold readAfter at h
  split at h
  · cases h
  · rename_i c rest heq
    rw [heq, List.length_cons] at hskip
    split_ifs at h <;>
    · cases h
      simp only
      omega

theorem step_shorter (h : r.step = .ok (.inl r')) :
    r'.input.length < r.input.length := by
  have hmap {e : Except Refusal Reader} (he : e.map Sum.inl = (.ok (.inl r') : Except Refusal
      (Reader ⊕ List Node))) : e = .ok r' := by
    cases e with
    | error why => cases he
    | ok r'' =>
      cases he
      rfl
  unfold step at h
  split at h
  · exact readValue_shorter (hmap h)
  · exact readKey_shorter (hmap h)
  · exact readAfter_shorter (hmap h)
  · split at h <;> cases h

def run (r : Reader) : Except Refusal (List Node) :=
  match _h : r.step with
  | .error why => .error why
  | .ok (.inr nodes) => .ok nodes
  | .ok (.inl r') => r'.run
  termination_by r.input.length
  decreasing_by exact step_shorter _h

theorem run_step (h : r.step = .ok (.inl r')) : r.run = r'.run := by
  rw [run]
  split
  all_goals rename_i heq
  · rw [h] at heq
    cases heq
  · rw [h] at heq
    cases heq
  · rw [h] at heq
    cases heq
    rfl

theorem run_done {nodes : List Node} (h : r.step = .ok (.inr nodes)) :
    r.run = .ok nodes := by
  rw [run]
  split
  all_goals rename_i heq
  · rw [h] at heq
    cases heq
  · rw [h] at heq
    cases heq
    rfl
  · rw [h] at heq
    cases heq

end Reader

/-- `ncfg_json_parse` : the nodes, or what is wrong and where. -/
def parse (text : List UInt8) : Except String (List Node) :=
  (if skipSpace text = [] then .error ⟨"an empty message", []⟩ else Reader.run { input := text })
    |>.mapError fun why => s!"{why.what} at byte {text.length - why.rest.length}"

/-! ## Laying a text out -/

/-- `ncfg_json_pretty_break`. -/
def prettyBreak (out : Buf) (depth : ℕ) : Buf :=
  (List.replicate depth (asciis "  ")).foldl Buf.add (out.add [0x0a])

/-- A string copied through, after its opening quote : what is left, where it has an end. -/
def prettyString (out : Buf) : List UInt8 → Buf × Option (List UInt8)
  | [] => (out, none)
  | c :: rest =>
    if c = ascii '\\' then
      match rest with
      | [] => (out.add [c], none)
      | e :: rest => prettyString ((out.add [c]).add [e]) rest
    else if c = ascii '"' then (out.add [c], some rest)
    else prettyString (out.add [c]) rest

theorem prettyString_shorter : ∀ {input rest : List UInt8} {out out' : Buf},
    prettyString out input = (out', some rest) → rest.length < input.length
  | [], _, _, _, h => by
    cases h
  | [c], rest, out, out', h => by
    unfold prettyString at h
    split_ifs at h
    · cases h
    · cases h
      simp
    · cases h
  | c :: e :: input, rest, out, out', h => by
    unfold prettyString at h
    split_ifs at h
    · have := prettyString_shorter h
      simp only [List.length_cons]
      omega
    · cases h
      simp
    · have := prettyString_shorter h
      simp only [List.length_cons] at this ⊢
      omega

/-- The loop of `ncfg_json_pretty` : whether it ended well, and what it wrote. `pending` is an
opener waiting to see whether anything follows. -/
def prettyLoop (depth : ℕ) (pending : Bool) (out : Buf) : List UInt8 → Bool × Buf
  | [] => (depth = 0, out)
  | c :: rest =>
    if c = ascii '\x7d' ∨ c = ascii ']' then
      match depth with
      | 0 => (false, out)
      | depth + 1 =>
        prettyLoop depth false ((if pending then out else prettyBreak out depth).add [c]) rest
    else if c = ascii ',' then prettyLoop depth pending (prettyBreak (out.add [c]) depth) rest
    else if c = ascii ':' then prettyLoop depth pending (out.add (asciis ": ")) rest
    else
      let out := if pending then prettyBreak out depth else out
      if c = ascii '\x7b' ∨ c = ascii '[' then prettyLoop (depth + 1) true (out.add [c]) rest
      else if c ≠ ascii '"' then prettyLoop depth false (out.add [c]) rest
      else match _h : prettyString (out.add [c]) rest with
        | (out, none) => (false, out)
        | (out, some rest) => prettyLoop depth false out rest
  termination_by input => input.length
  decreasing_by
    all_goals simp only [List.length_cons]
    all_goals first | omega | (have hlt := prettyString_shorter _h; omega)

/-- `ncfg_json_pretty`, into an empty buffer of a limit. -/
def pretty (limit : ℕ) (text : List UInt8) : Bool × Buf :=
  prettyLoop 0 false { limit } (Writer.cString text)

/-! ## What a caller sees -/

def readDigits : List UInt8 → ℕ → Option ℕ
  | [], value => some value
  | c :: rest, value =>
    if isDigit c then
      if (2 ^ 64 - 1 - (c.toNat - 48)) / 10 < value then none
      else readDigits rest (value * 10 + (c.toNat - 48))
    else none

/-- `ncfg_json_int`. -/
def jsonInt (node : Node) (fallback : ℤ) : ℤ :=
  if node.type ≠ .number ∨ node.value = [] then fallback
  else
    let negative := node.value.head? = some (ascii '-')
    let text := if negative then node.value.tail else node.value
    if text = [] then fallback
    else match readDigits text 0 with
      | none => fallback
      | some value =>
        if negative then if 2 ^ 63 < value then fallback else -(value : ℤ)
        else if 2 ^ 63 ≤ value then fallback else value

mutual

def Holds (nodes : List Node) : ℕ → Tree → Prop
  | i, .null => ∃ n, nodes[i]? = some n ∧ n.type = .null
  | i, .bool b => ∃ n, nodes[i]? = some n ∧ n.type = .bool ∧ n.boolValue = b
  | i, .int k => ∃ n, nodes[i]? = some n ∧ n.type = .number ∧ n.value = decimal k ∧
      (-2 ^ 63 ≤ k → k < 2 ^ 63 → ∀ fallback, jsonInt n fallback = k)
  | i, .string bytes => ∃ n, nodes[i]? = some n ∧ n.type = .string ∧ n.value = bytes
  | i, .array items => ∃ n, nodes[i]? = some n ∧ n.type = .array ∧ n.childCount = items.length ∧
      HoldsItems nodes n.firstChild items
  | i, .object members => ∃ n, nodes[i]? = some n ∧ n.type = .object ∧
      n.childCount = members.length ∧ HoldsMembers nodes n.firstChild members

/-- The values at an index and at the ones its links lead to, none of them with a name. -/
def HoldsItems (nodes : List Node) : Option ℕ → List Tree → Prop
  | i, [] => i = none
  | i, t :: rest => ∃ k n, i = some k ∧ nodes[k]? = some n ∧ n.key = none ∧ Holds nodes k t ∧
      HoldsItems nodes n.nextSibling rest

def HoldsMembers (nodes : List Node) : Option ℕ → List (List UInt8 × Tree) → Prop
  | i, [] => i = none
  | i, (name, t) :: rest => ∃ k n, i = some k ∧ nodes[k]? = some n ∧ n.key = some name ∧
      Holds nodes k t ∧ HoldsMembers nodes n.nextSibling rest

end

/-- The nodes of a text that is read as one tree. -/
def IsRead (nodes : List Node) (t : Tree) : Prop :=
  Holds nodes 0 t ∧ (nodes.head?.bind Node.key) = none

end Netcfgd.Json
