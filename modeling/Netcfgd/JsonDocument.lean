import Netcfgd.JsonPretty

/-!
# What was written is a document

`ncfg_json_parse` leaves an array of nodes that link to each other by index. The nodes of a document
(`docNodes`) are every child after its container, with the links through the children in order,
names on those of an object and none on those of an array. So what a caller reaches through
`ncfg_json_member`, `ncfg_json_at` and the links is a tree, `documentAt` reads it back, and
`document` is what a text says. What was written says what was written (`document_render`).
-/

namespace Netcfgd.Json

/-! ## Documents -/

/-- What a text says : numbers as they are spelled, members in order. -/
inductive Doc
  | null
  | bool (b : Bool)
  | number (text : List UInt8)
  | string (bytes : List UInt8)
  | array (items : List Doc)
  | object (members : List (List UInt8 × Doc))

mutual

def Doc.size : Doc → ℕ
  | .null | .bool _ | .number _ | .string _ => 1
  | .array items => sizeDocs items + 1
  | .object members => sizeNamed members + 1

def sizeDocs : List Doc → ℕ
  | [] => 0
  | d :: rest => d.size + sizeDocs rest

def sizeNamed : List (List UInt8 × Doc) → ℕ
  | [] => 0
  | (_, d) :: rest => d.size + sizeNamed rest

end

mutual

/-- The nodes of a document from an index on, with its name and the link to what follows it. -/
def docNodes (i : ℕ) (key : Option (List UInt8)) (next : Option ℕ) : Doc → List Node
  | .null => [{ type := .null, key, nextSibling := next }]
  | .bool b => [{ type := .bool, key, boolValue := b, nextSibling := next }]
  | .number text => [{ type := .number, key, value := text, nextSibling := next }]
  | .string bytes => [{ type := .string, key, value := bytes, nextSibling := next }]
  | .array items =>
    { type := .array, key, childCount := items.length
      firstChild := if items.isEmpty then none else some (i + 1), nextSibling := next } ::
      itemNodes (i + 1) items
  | .object members =>
    { type := .object, key, childCount := members.length
      firstChild := if members.isEmpty then none else some (i + 1), nextSibling := next } ::
      memberNodes (i + 1) members

def itemNodes (i : ℕ) : List Doc → List Node
  | [] => []
  | d :: rest =>
    docNodes i none (if rest.isEmpty then none else some (i + d.size)) d ++
      itemNodes (i + d.size) rest

def memberNodes (i : ℕ) : List (List UInt8 × Doc) → List Node
  | [] => []
  | (name, d) :: rest =>
    docNodes i (some name) (if rest.isEmpty then none else some (i + d.size)) d ++
      memberNodes (i + d.size) rest

end

mutual

theorem length_docNodes : ∀ (d : Doc) (i : ℕ) (key : Option (List UInt8)) (next : Option ℕ),
    (docNodes i key next d).length = d.size
  | .null, _, _, _ | .bool _, _, _, _ | .number _, _, _, _ | .string _, _, _, _ => rfl
  | .array items, i, key, next => by
    rw [docNodes, List.length_cons, length_itemNodes items, Doc.size]
  | .object members, i, key, next => by
    rw [docNodes, List.length_cons, length_memberNodes members, Doc.size]

theorem length_itemNodes : ∀ (items : List Doc) (i : ℕ), (itemNodes i items).length = sizeDocs items
  | [], _ => rfl
  | d :: rest, i => by
    rw [itemNodes, List.length_append, length_docNodes d, length_itemNodes rest, sizeDocs]

theorem length_memberNodes : ∀ (members : List (List UInt8 × Doc)) (i : ℕ),
    (memberNodes i members).length = sizeNamed members
  | [], _ => rfl
  | (_, d) :: rest, i => by
    rw [memberNodes, List.length_append, length_docNodes d, length_memberNodes rest, sizeNamed]

end

theorem docNodes_next (d : Doc) (i : ℕ) (key : Option (List UInt8)) :
    ∃ (n : Node) (rest : List Node), n.key = key ∧ ∀ next,
      docNodes i key next d = { n with nextSibling := next } :: rest := by
  cases d with
  | null => exact ⟨{ type := .null, key }, [], rfl, fun _ => rfl⟩
  | bool b => exact ⟨{ type := .bool, key, boolValue := b }, [], rfl, fun _ => rfl⟩
  | number text => exact ⟨{ type := .number, key, value := text }, [], rfl, fun _ => rfl⟩
  | string bytes => exact ⟨{ type := .string, key, value := bytes }, [], rfl, fun _ => rfl⟩
  | array items =>
    refine ⟨{ type := .array, key, childCount := items.length
              firstChild := if items.isEmpty then none else some (i + 1) },
      itemNodes (i + 1) items, rfl, fun _ => ?_⟩
    rw [docNodes]
  | object members =>
    refine ⟨{ type := .object, key, childCount := members.length
              firstChild := if members.isEmpty then none else some (i + 1) },
      memberNodes (i + 1) members, rfl, fun _ => ?_⟩
    rw [docNodes]

theorem size_doc_pos (d : Doc) : 0 < d.size := by
  cases d <;> simp [Doc.size]

/-! ## Reading a document back -/

mutual

/-- The document at an index of the nodes, its children reached by the links. -/
def documentAt (nodes : List Node) : ℕ → ℕ → Doc
  | 0, _ => .null
  | fuel + 1, i =>
    match nodes[i]? with
    | none => .null
    | some n =>
      match n.type with
      | .null => .null
      | .bool => .bool n.boolValue
      | .number => .number n.value
      | .string => .string n.value
      | .array => .array ((childrenAt nodes fuel n.firstChild).map Prod.snd)
      | .object => .object ((childrenAt nodes fuel n.firstChild).map fun c => (c.1.getD [], c.2))

def childrenAt (nodes : List Node) : ℕ → Option ℕ → List (Option (List UInt8) × Doc)
  | 0, _ | _, none => []
  | fuel + 1, some i =>
    match nodes[i]? with
    | none => []
    | some n => (n.key, documentAt nodes fuel i) :: childrenAt nodes fuel n.nextSibling

end

/-- A text as a document. -/
def document (text : List UInt8) : Except String Doc :=
  (parse text).map fun nodes => documentAt nodes (2 * nodes.length) 0

theorem getElem?_docNodes (before after : List Node) (d : Doc) (i : ℕ)
    (key : Option (List UInt8)) (next : Option ℕ) :
    ∃ n, (before ++ docNodes i key next d ++ after)[before.length]? = some n ∧ n.key = key ∧
      n.nextSibling = next := by
  obtain ⟨n, rest, hkey, hnodes⟩ := docNodes_next d i key
  refine ⟨{ n with nextSibling := next }, ?_, hkey, rfl⟩
  rw [hnodes, List.append_assoc, List.cons_append]
  exact get_middle before (rest ++ after) _

mutual

theorem documentAt_docNodes : ∀ (d : Doc) (before after : List Node) (key : Option (List UInt8))
    (next : Option ℕ) {k : ℕ}, 2 * d.size ≤ k →
      documentAt (before ++ docNodes before.length key next d ++ after) k before.length = d
  | d, before, after, key, next, 0, h => by
    have hpos := size_doc_pos d
    omega
  | .null, before, after, key, next, fuel + 1, h => by
    simp [documentAt, docNodes]
  | .bool b, before, after, key, next, fuel + 1, h => by
    simp [documentAt, docNodes]
  | .number text, before, after, key, next, fuel + 1, h => by
    simp [documentAt, docNodes]
  | .string bytes, before, after, key, next, fuel + 1, h => by
    simp [documentAt, docNodes]
  | .array items, before, after, key, next, fuel + 1, h => by
    rw [Doc.size] at h
    have hitems := childrenAt_itemNodes items
      (before ++ [{ type := .array, key, childCount := items.length
                    firstChild := if items.isEmpty then none else some (before.length + 1)
                    nextSibling := next }]) after (k := fuel) (by omega)
    rw [List.length_append, List.length_singleton, List.append_assoc, List.append_assoc] at hitems
    rw [docNodes, documentAt, List.append_assoc, List.cons_append, get_middle]
    dsimp only
    rw [List.singleton_append] at hitems
    rw [hitems, List.map_map]
    exact congrArg Doc.array (List.map_id' items)
  | .object members, before, after, key, next, fuel + 1, h => by
    rw [Doc.size] at h
    have hmembers := childrenAt_memberNodes members
      (before ++ [{ type := .object, key, childCount := members.length
                    firstChild := if members.isEmpty then none else some (before.length + 1)
                    nextSibling := next }]) after (k := fuel) (by omega)
    rw [List.length_append, List.length_singleton, List.append_assoc, List.append_assoc]
      at hmembers
    rw [docNodes, documentAt, List.append_assoc, List.cons_append, get_middle]
    dsimp only
    rw [List.singleton_append] at hmembers
    rw [hmembers, List.map_map]
    exact congrArg Doc.object (List.map_id' members)

theorem childrenAt_itemNodes : ∀ (items : List Doc) (before after : List Node) {k : ℕ},
    2 * sizeDocs items + 1 ≤ k →
      childrenAt (before ++ itemNodes before.length items ++ after) k
        (if items.isEmpty then none else some before.length) = items.map fun d => (none, d)
  | [], before, after, fuel, h => by
    cases fuel <;> rfl
  | d :: rest, before, after, 0, h => by omega
  | d :: rest, before, after, fuel + 1, h => by
    rw [sizeDocs] at h
    have hpos := size_doc_pos d
    set link := if rest.isEmpty then none else some (before.length + d.size) with hlink
    have hfirst := documentAt_docNodes d before (itemNodes (before.length + d.size) rest ++ after)
      none link (k := fuel) (by omega)
    have hrest := childrenAt_itemNodes rest (before ++ docNodes before.length none link d) after
      (k := fuel) (by omega)
    obtain ⟨n, hn, hkey, hnext⟩ := getElem?_docNodes before
      (itemNodes (before.length + d.size) rest ++ after) d before.length none link
    rw [List.length_append, length_docNodes, ← hlink, List.append_assoc, List.append_assoc]
      at hrest
    rw [List.append_assoc] at hfirst hn
    rw [itemNodes, ← hlink, List.append_assoc, List.append_assoc, if_neg (by simp), childrenAt, hn]
    dsimp only
    rw [hfirst, hkey, hnext, hrest]
    rfl

theorem childrenAt_memberNodes : ∀ (members : List (List UInt8 × Doc)) (before after : List Node)
    {k : ℕ}, 2 * sizeNamed members + 1 ≤ k →
      childrenAt (before ++ memberNodes before.length members ++ after) k
        (if members.isEmpty then none else some before.length) =
          members.map fun m => (some m.1, m.2)
  | [], before, after, fuel, h => by
    cases fuel <;> rfl
  | (name, d) :: rest, before, after, 0, h => by omega
  | (name, d) :: rest, before, after, fuel + 1, h => by
    rw [sizeNamed] at h
    have hpos := size_doc_pos d
    set link := if rest.isEmpty then none else some (before.length + d.size) with hlink
    have hfirst := documentAt_docNodes d before
      (memberNodes (before.length + d.size) rest ++ after) (some name) link (k := fuel)
      (by omega)
    have hrest := childrenAt_memberNodes rest (before ++ docNodes before.length (some name) link d)
      after (k := fuel) (by omega)
    obtain ⟨n, hn, hkey, hnext⟩ := getElem?_docNodes before
      (memberNodes (before.length + d.size) rest ++ after) d before.length (some name) link
    rw [List.length_append, length_docNodes, ← hlink, List.append_assoc, List.append_assoc]
      at hrest
    rw [List.append_assoc] at hfirst hn
    rw [memberNodes, ← hlink, List.append_assoc, List.append_assoc, if_neg (by simp), childrenAt,
      hn]
    dsimp only
    rw [hfirst, hkey, hnext, hrest]
    rfl

end

theorem document_of_parse {text : List UInt8} {d : Doc}
    (h : parse text = .ok (docNodes 0 none none d)) : document text = .ok d := by
  have hread := documentAt_docNodes d [] [] none none
    (k := 2 * (docNodes 0 none none d).length) (by rw [length_docNodes])
  rw [List.nil_append, List.append_nil] at hread
  rw [document, h]
  exact congrArg Except.ok hread

/-! ## What was written -/

mutual

def Doc.ofTree : Tree → Doc
  | .null => .null
  | .bool b => .bool b
  | .int n => .number (decimal n)
  | .string bytes => .string bytes
  | .array items => .array (ofTrees items)
  | .object members => .object (ofNamed members)

def ofTrees : List Tree → List Doc
  | [] => []
  | t :: rest => .ofTree t :: ofTrees rest

def ofNamed : List (List UInt8 × Tree) → List (List UInt8 × Doc)
  | [] => []
  | (name, t) :: rest => (name, .ofTree t) :: ofNamed rest

end

theorem ofTrees_eq (items : List Tree) : ofTrees items = items.map Doc.ofTree := by
  induction items with
  | nil => rfl
  | cons t rest ih => rw [ofTrees, ih, List.map_cons]

theorem ofNamed_eq (members : List (List UInt8 × Tree)) :
    ofNamed members = members.map fun m => (m.1, .ofTree m.2) := by
  induction members with
  | nil => rfl
  | cons m rest ih => rw [ofNamed, ih, List.map_cons]

mutual

theorem size_ofTree : ∀ t : Tree, (Doc.ofTree t).size = size t
  | .null | .bool _ | .int _ | .string _ => rfl
  | .array items => by rw [Doc.ofTree, Doc.size, sizeDocs_ofTrees items, size]
  | .object members => by rw [Doc.ofTree, Doc.size, sizeNamed_ofNamed members, size]

theorem sizeDocs_ofTrees : ∀ items : List Tree, sizeDocs (ofTrees items) = sizeItems items
  | [] => rfl
  | t :: rest => by rw [ofTrees, sizeDocs, size_ofTree t, sizeDocs_ofTrees rest, sizeItems]

theorem sizeNamed_ofNamed : ∀ members : List (List UInt8 × Tree),
    sizeNamed (ofNamed members) = sizeMembers members
  | [] => rfl
  | (name, t) :: rest => by
    rw [ofNamed, sizeNamed, size_ofTree t, sizeNamed_ofNamed rest, sizeMembers]

end

mutual

theorem docNodes_ofTree : ∀ (t : Tree) (i : ℕ) (key : Option (List UInt8)) (next : Option ℕ),
    docNodes i key next (.ofTree t) = laid i key next t
  | .null, _, _, _ | .bool _, _, _, _ | .int _, _, _, _ | .string _, _, _, _ => rfl
  | .array items, i, key, next => by
    have hitems := itemNodes_ofTrees items (i + 1)
    rw [Doc.ofTree, docNodes, hitems, laid, ofTrees_eq, List.length_map, List.isEmpty_map]
  | .object members, i, key, next => by
    have hmembers := memberNodes_ofNamed members (i + 1)
    rw [Doc.ofTree, docNodes, hmembers, laid, ofNamed_eq, List.length_map, List.isEmpty_map]

theorem itemNodes_ofTrees : ∀ (items : List Tree) (i : ℕ),
    itemNodes i (ofTrees items) = laidItems i items
  | [], _ => rfl
  | t :: rest, i => by
    rw [ofTrees, itemNodes, size_ofTree, docNodes_ofTree t, itemNodes_ofTrees rest, laidItems,
      ofTrees_eq, List.isEmpty_map]

theorem memberNodes_ofNamed : ∀ (members : List (List UInt8 × Tree)) (i : ℕ),
    memberNodes i (ofNamed members) = laidMembers i members
  | [], _ => rfl
  | (name, t) :: rest, i => by
    rw [ofNamed, memberNodes, size_ofTree, docNodes_ofTree t, memberNodes_ofNamed rest,
      laidMembers, ofNamed_eq, List.isEmpty_map]

end

theorem document_render {l : Layout} (hl : l.Blank) {t : Tree} (hfits : Fits maxDepth t)
    (hlength : (render l 0 t).length < 2 ^ 32) : document (render l 0 t) = .ok (.ofTree t) := by
  have hsize := size_le_render l t 0
  have hroom : size t ≤ maxNodes := by
    rw [maxNodes]
    omega
  refine document_of_parse ?_
  rw [parse_render hl hfits hroom, docNodes_ofTree]

theorem document_written {limit : ℕ} {s : Script} (h : (write limit s.calls).done = true)
    (hlength : (write limit s.calls).buf.bytes.length < 2 ^ 32) :
    document (write limit s.calls).buf.bytes = .ok (.ofTree s.value) := by
  obtain ⟨hfits, htext⟩ := Writer.text_of_script h
  rw [htext] at hlength ⊢
  exact document_render blank_compact hfits hlength

end Netcfgd.Json
