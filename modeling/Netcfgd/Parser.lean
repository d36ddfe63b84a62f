import Netcfgd.Lexer

/-!
# The grammar of a configuration

`src/compile/parse.c`, a recursive descent with one token of lookahead. A statement that does not
parse is a diagnostic and a skip to the next terminator, and a file is accepted where there is no
diagnostic (`parse`). Blocks and lists share one count of how deep they nest, so the recursion is on
what is left of it ; each loop runs for as many bytes as are left at most.
-/

namespace Netcfgd.Parse

open Netcfgd.Json (ascii asciis)

/-- `NCFG_ERROR_MAX`. -/
def errorMax : ℕ := 512

/-- `FOUND_MAX`. -/
def foundMax : ℕ := 128

/-- `NCFG_MAX_NESTING_DEPTH`. -/
def maxNestingDepth : ℕ := 32

/-- `NCFG_DIAGS_MAX`. -/
def diagsMax : ℕ := 64

/-- `HOOK_PHASES`. -/
def hookPhases : List Bytes :=
  [asciis "pre_up", asciis "up", asciis "post_up", asciis "pre_down", asciis "down",
    asciis "post_down"]

/-- `LABELLED_BLOCKS`. -/
def labelledBlocks : List Bytes :=
  [asciis "interface", asciis "network", asciis "device", asciis "peer"]

/-! ## The tree -/

/-- `ncfg_ast_value_t`. -/
inductive Value
  | string (text : Bytes) (span : Span)
  | number (n : ℤ) (span : Span)
  | boolean (b : Bool) (span : Span)
  | list (entries : List Value) (span : Span)

/-- `ncfg_ast_hook_t`. -/
structure Hook where
  phase : Bytes
  body : Bytes
  span : Span

/-- `ncfg_ast_item_t`. -/
inductive Item
  | block (head : Bytes) (label : Option Bytes) (overrides : Bool) (items : List Item) (span : Span)
  | assignment (key : Bytes) (value : Value) (span : Span)
  | hook (h : Hook)
  | incl (path : Bytes) (span : Span)

/-- `ncfg_diag_t`. -/
structure Diag where
  span : Span
  message : Bytes

/-! ## The token stream -/

/-- `parser_t`, with the diagnostics in order. -/
structure Parser where
  lexer : Lexer
  lookahead : Option Token := none
  diags : List Diag := []

namespace Parser

/-- `store_diag`, of a message in its buffer. -/
def storeDiag (p : Parser) (span : Span) (message : Bytes) : Parser :=
  { p with diags := p.diags ++ [⟨span, message.take (errorMax - 1)⟩] }

def found (t : Token) : Bytes := t.kind.describe.take (foundMax - 1)

/-- `pull`. -/
def pull (p : Parser) : Token × Parser :=
  match p.lexer.next with
  | (.ok t, l) => (t, { p with lexer := l })
  | (.error (span, message), l) => (⟨.eof, span⟩, { p with lexer := l }.storeDiag span message)

/-- `peek`. -/
def peek (p : Parser) : Token × Parser :=
  match p.lookahead with
  | some t => (t, p)
  | none => (p.pull.1, { p.pull.2 with lookahead := some p.pull.1 })

/-- `take`. -/
def take (p : Parser) : Token × Parser :=
  match p.lookahead with
  | some t => (t, { p with lookahead := none })
  | none => p.pull

/-- `drop`. -/
def drop (p : Parser) : Parser := p.take.2

/-- `discard_lookahead`. -/
def discardLookahead (p : Parser) : Parser := { p with lookahead := none }

def size (p : Parser) : ℕ := p.lexer.rest.length + (if p.lookahead.isSome then 1 else 0)

/-- The loop of `skip_terminators`. -/
def skipIn : ℕ → Parser → Parser
  | 0, p => p
  | n + 1, p =>
    let (t, p) := p.peek
    if t.kind = .terminator then skipIn n p.drop else p

/-- `skip_terminators`. -/
def skipTerminators (p : Parser) : Parser := p.skipIn (p.size + 1)

/-- The loop of `recover`. -/
def recoverIn : ℕ → Parser → Bool × Parser
  | 0, p => (false, p)
  | n + 1, p =>
    let (t, p) := p.take
    if t.kind = .eof then (false, p)
    else if t.kind = .terminator then (true, p)
    else recoverIn n p

/-- `recover`. -/
def recover (p : Parser) : Bool × Parser := p.recoverIn (p.size + 1)

/-- `expect_terminator`. -/
def expectTerminator (p : Parser) : Parser :=
  let (t, p) := p.peek
  if t.kind = .terminator then p.drop
  else if t.kind = .eof ∨ t.kind = .rbrace then p
  else p.storeDiag t.span (asciis "expected end of statement, found " ++ found t)

end Parser

/-! ## Values -/

/-- `close_list`. -/
def closeList (span : Span) (bracket : Token) : Span :=
  let stop := bracket.span.offset + bracket.span.length
  if span.offset < stop then { span with length := stop - span.offset } else span

/-- `parse_list_entries`, by a parser of an entry. -/
def parseListEntries (entry : Parser → Option Value × Parser) (span : Span) :
    ℕ → List Value → Parser → Option Value × Parser
  | 0, _, p => (none, p)
  | n + 1, entries, p =>
    let (t, p) := p.skipTerminators.peek
    if t.kind = .rbracket then (some (.list entries (closeList span t)), p.drop)
    else
      match entry p with
      | (none, p) => (none, p)
      | (some v, p) =>
        let (t, p) := p.skipTerminators.peek
        if t.kind = .comma then parseListEntries entry span n (entries ++ [v]) p.drop
        else if t.kind = .rbracket then
          (some (.list (entries ++ [v]) (closeList span t)), p.drop)
        else
          (none, p.storeDiag t.span
            (asciis "expected \x60,\x60 or \x60]\x60 in list, found " ++ Parser.found t))

/-- `parse_value`, by a parser of a list. -/
def parseValueWith (list : Span → Parser → Option Value × Parser) (p : Parser) :
    Option Value × Parser :=
  let (t, p) := p.take
  match t.kind with
  | .string text => (some (.string text t.span), p)
  | .number n => (some (.number n t.span), p)
  | .boolean b => (some (.boolean b t.span), p)
  | .lbracket => list t.span p
  | _ => (none, p.storeDiag t.span (asciis "expected a value, found " ++ Parser.found t))

/-- `parse_value`, with how much deeper it may nest. -/
def parseValue : ℕ → Parser → Option Value × Parser
  | 0, p =>
    parseValueWith (fun span p => (none, p.storeDiag span (asciis "a list nests more than 32 deep: this is almost always an unclosed \x60[\x60 earlier in the file"))) p
  | room + 1, p =>
    parseValueWith (fun span p => parseListEntries (parseValue room) span (p.size + 1) [] p) p

/-! ## Items -/

/-- `is_hook_head`. -/
def isHookHead (name : Bytes) : Bool :=
  name = asciis "on" || (hookPhases.contains name && !labelledBlocks.contains name)

/-- `parse_include`. -/
def parseInclude (p : Parser) : Option Item × Parser :=
  let (keyword, p) := p.take
  let (value, p) := p.take
  match value.kind with
  | .string path => (some (.incl path keyword.span), p.expectTerminator)
  | _ =>
    (none, p.storeDiag value.span
      (asciis "expected a quoted path after \x60include\x60, found " ++ Parser.found value))

/-- What `parse_hook` does from the brace on. -/
def parseHookBody (phase : Bytes) (span : Span) (p : Parser) : Option Item × Parser :=
  let (brace, p) := p.take
  if brace.kind ≠ .lbrace then
    (none, p.storeDiag brace.span
      (asciis "expected \x60\x7b\x60 after " ++ quoted phase ++ asciis ", found " ++
        Parser.found brace))
  else
    let (t, p) := p.peek
    let p := (if t.kind = .terminator then p.drop else p).discardLookahead
    match p.lexer.hookBody with
    | (.error (where_, message), l) => (none, { p with lexer := l }.storeDiag where_ message)
    | (.ok body, l) => (some (.hook ⟨phase, body, span⟩), { p with lexer := l })

/-- `parse_hook`. -/
def parseHook (p : Parser) : Option Item × Parser :=
  let (keyword, p) := p.take
  match keyword.kind with
  | .ident phase =>
    if phase = asciis "on" then
      let (event, p) := p.take
      match event.kind with
      | .ident name => parseHookBody name keyword.span p
      | _ =>
        (none, p.storeDiag event.span
          (asciis "expected an event name after \x60on\x60, found " ++ Parser.found event))
    else parseHookBody phase keyword.span p
  | _ => (none, p)

/-- What is known of a block when its items are read. -/
structure BlockHead where
  head : Bytes
  label : Option Bytes
  span : Span

/-- `parse_block_items`, by a parser of an item. -/
def parseBlockItems (item : Parser → Option Item × Parser) (b : BlockHead) :
    ℕ → List Item → Parser → Option Item × Parser
  | 0, _, p => (none, p)
  | n + 1, items, p =>
    let (t, p) := p.skipTerminators.peek
    if t.kind = .rbrace then
      (some (.block b.head b.label false items b.span), p.drop.expectTerminator)
    else if t.kind = .eof then
      (none, p.storeDiag b.span
        (asciis "unclosed block " ++ quoted b.head ++
          asciis ": every block needs a closing \x60\x7d\x60"))
    else
      match item p with
      | (some child, p) => parseBlockItems item b n (items ++ [child]) p
      | (none, p) =>
        match p.recover with
        | (false, p) => (none, p)
        | (true, p) => parseBlockItems item b n items p

/-- What `parse_block_after_head` does from the brace on, by a parser of what stands in it. -/
def parseBraced (body : BlockHead → Span → Parser → Option Item × Parser) (b : BlockHead)
    (p : Parser) : Option Item × Parser :=
  let (brace, p) := p.take
  if brace.kind ≠ .lbrace then
    (none, p.storeDiag brace.span
      (asciis "expected \x60\x7b\x60 to open " ++ quoted b.head ++ asciis ", found " ++
        Parser.found brace))
  else body b brace.span p

/-- `parse_block_after_head`. -/
def parseBlockAfterHead (body : BlockHead → Span → Parser → Option Item × Parser) (head : Bytes)
    (span : Span) (p : Parser) : Option Item × Parser :=
  let (t, p) := p.peek
  match t.kind with
  | .ident label | .string label => parseBraced body ⟨head, some label, span⟩ p.drop
  | _ => parseBraced body ⟨head, none, span⟩ p

/-- `parse_block`, with `overrides` set where it parses. -/
def parseOverride (body : BlockHead → Span → Parser → Option Item × Parser) (p : Parser) :
    Option Item × Parser :=
  let (t, p) := p.take
  match t.kind with
  | .ident head =>
    match parseBlockAfterHead body head t.span p with
    | (some (.block head label _ items span), p) => (some (.block head label true items span), p)
    | other => other
  | _ =>
    (none, p.storeDiag t.span
      (asciis "expected a block after \x60override\x60, found " ++ Parser.found t))

/-- What `parse_item` does of an item that starts with its key. -/
def parseKeyed (room : ℕ) (body : BlockHead → Span → Parser → Option Item × Parser) (key : Bytes)
    (span : Span) (p : Parser) : Option Item × Parser :=
  let (next, p) := p.peek
  match next.kind with
  | .equals =>
    match parseValue room p.drop with
    | (none, p) => (none, p)
    | (some value, p) => (some (.assignment key value span), p.expectTerminator)
  | .lbrace | .ident _ | .string _ => parseBlockAfterHead body key span p
  | _ =>
    (none, p.storeDiag next.span
      (asciis "expected \x60=\x60 or \x60\x7b\x60 after " ++ quoted key ++ asciis ", found " ++
        Parser.found next))

/-- `parse_item`, by a parser of what stands in the braces of a block. -/
def parseItemWith (room : ℕ) (body : BlockHead → Span → Parser → Option Item × Parser)
    (p : Parser) : Option Item × Parser :=
  let (head, p) := p.peek
  match head.kind with
  | .ident name =>
    if name = asciis "include" then parseInclude p
    else if name = asciis "override" then parseOverride body p.drop
    else if isHookHead name then parseHook p
    else parseKeyed room body name head.span p.drop
  | _ =>
    (none, p.storeDiag head.span (asciis "expected a statement, found " ++ Parser.found head))

/-- `parse_item`, with how much deeper it may nest. -/
def parseItem : ℕ → Parser → Option Item × Parser
  | 0, p =>
    parseItemWith 0 (fun b brace p => (none, p.storeDiag brace (quoted b.head ++
      asciis " nests more than 32 blocks deep: this is almost always an unclosed block earlier in the file"))) p
  | room + 1, p =>
    parseItemWith (room + 1) (fun b _ p => parseBlockItems (parseItem room) b (p.size + 1) [] p) p

/-- The loop of `parse_file`. -/
def parseFileIn : ℕ → List Item → Parser → List Item × Parser
  | 0, items, p => (items, p)
  | n + 1, items, p =>
    let (t, p) := p.skipTerminators.peek
    if t.kind = .eof then (items, p)
    else
      match parseItem maxNestingDepth p with
      | (some item, p) => parseFileIn n (items ++ [item]) p
      | (none, p) =>
        match p.recover with
        | (false, p) => (items, p)
        | (true, p) => parseFileIn n items p

/-- `parse_file`. -/
def parseFile (text : Bytes) : List Item × Parser :=
  parseFileIn (text.length + 1) [] { lexer := { rest := text } }

/-- `ncfg_diags_t` : how many there were, and the first of them. -/
structure Diags where
  total : ℕ
  kept : List Diag

/-- `ncfg_parse` : the items of a text that has no diagnostic, or the diagnostics. -/
def parse (text : Bytes) : Except Diags (List Item) :=
  match parseFile text with
  | (items, p) =>
    if p.diags = [] then .ok items else .error ⟨p.diags.length, p.diags.take diagsMax⟩

end Netcfgd.Parse
