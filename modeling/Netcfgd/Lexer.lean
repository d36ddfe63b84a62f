import Netcfgd.JsonWrite

/-!
# The tokens of a configuration

`src/compile/lex.c` : a cursor over the bytes of one file. A token is read of the bytes at the
cursor (`tokenOf`), after blanks and comments (`trivia`), and the cursor moves over both
(`Lexer.next`) ; the body of a hook is not made of tokens, and is read line by line (`hookBody`).
-/

namespace Netcfgd.Parse

open Netcfgd.Json (ascii asciis decimalDigits)

abbrev Bytes := List UInt8

/-- `ncfg_span_t`. -/
structure Span where
  offset : ℕ
  length : ℕ
  line : ℕ
  column : ℕ

/-- `ncfg_token_kind_t`, with what a token carries. -/
inductive TokenKind
  | ident (text : Bytes)
  | string (text : Bytes)
  | number (n : ℤ)
  | boolean (b : Bool)
  | lbrace
  | rbrace
  | lbracket
  | rbracket
  | equals
  | comma
  | terminator
  | eof
deriving DecidableEq

/-- `ncfg_token_t`. -/
structure Token where
  kind : TokenKind
  span : Span

/-- What is wrong with a token : the message, and where in it, if that is not the whole of it. -/
structure Fault where
  message : Bytes
  escape : Option ℕ := none

def defaultLimit : ℕ := 16 * 1024 * 1024

/-! ## Bytes -/

/-- `ncfg_is_ident_start`. -/
def isIdentStart (c : UInt8) : Bool :=
  (ascii 'a' ≤ c && c ≤ ascii 'z') || (ascii 'A' ≤ c && c ≤ ascii 'Z') || c = ascii '_'

/-- `ncfg_is_ident_continue`. -/
def isIdentContinue (c : UInt8) : Bool :=
  isIdentStart c || (ascii '0' ≤ c && c ≤ ascii '9') || c = ascii '-' || c = ascii '.'

def isDigit (c : UInt8) : Bool := ascii '0' ≤ c && c ≤ ascii '9'

/-- `is_space`. -/
def isSpace (c : UInt8) : Bool := c = 32 || c = 9 || c = 13 || c = 10 || c = 11 || c = 12

def hexDigit (n : UInt8) : UInt8 := if n < 10 then 48 + n else 87 + n

/-- `describe_byte`. -/
def describeByte (c : UInt8) : Bytes :=
  if 0x20 ≤ c ∧ c < 0x7f then [c] else asciis "\\x" ++ [hexDigit (c / 16), hexDigit (c % 16)]

/-- `utf8_sequence_length`. -/
def utf8SequenceLength (lead : UInt8) : ℕ :=
  if lead < 0x80 then 1
  else if lead >>> 5 = 0x06 then 2
  else if lead >>> 4 = 0x0e then 3
  else if lead >>> 3 = 0x1e then 4
  else 1

/-- `utf8_is_valid`, of one to four bytes. -/
def utf8IsValid : Bytes → Bool
  | [lead] => lead < 0x80
  | lead :: first :: rest =>
    (first :: rest).all (fun c => 0x80 ≤ c && c ≤ 0xbf) &&
      match rest with
      | [] => 0xc2 ≤ lead && lead ≤ 0xdf
      | [_] =>
        if lead = 0xe0 then 0xa0 ≤ first
        else if lead = 0xed then first ≤ 0x9f
        else 0xe1 ≤ lead && lead ≤ 0xef
      | [_, _] =>
        if lead = 0xf0 then 0x90 ≤ first
        else if lead = 0xf4 then first ≤ 0x8f
        else 0xf1 ≤ lead && lead ≤ 0xf3
      | _ => false
  | [] => false

/-! ## Tokens -/

/-- How many bytes `skip_trivia` skips, inside of a comment or not. -/
def triviaIn : Bool → Bytes → ℕ
  | _, [] => 0
  | comment, c :: rest =>
    if comment then if c = 10 then 0 else triviaIn true rest + 1
    else if c = 32 ∨ c = 9 ∨ c = 13 then triviaIn false rest + 1
    else if c = ascii '#' then triviaIn true rest + 1
    else 0

/-- `skip_trivia`. -/
def trivia (bytes : Bytes) : ℕ := triviaIn false bytes

/-- `lex_ident` : the token, and how many bytes it takes. -/
def lexIdent (bytes : Bytes) : TokenKind × ℕ :=
  let text := bytes.takeWhile isIdentContinue
  (if text = asciis "true" then .boolean true
    else if text = asciis "false" then .boolean false
    else .ident text, text.length)

def digitsValue (limit : ℕ) (digits : Bytes) : Option ℕ :=
  digits.foldl (fun value c =>
    value.bind fun v =>
      let digit := (c - ascii '0').toNat
      if (limit - digit) / 10 < v then none else some (v * 10 + digit)) (some 0)

/-- `lex_number`. -/
def lexNumber (bytes : Bytes) : Except Fault TokenKind × ℕ :=
  let negative := bytes.head? = some (ascii '-')
  let sign := if negative then 1 else 0
  let digits := (bytes.drop sign).takeWhile isDigit
  let length := sign + digits.length
  let limit := if negative then 2 ^ 63 else 2 ^ 63 - 1
  if digits = [] then (.error ⟨asciis "expected digits after \x60-\x60", none⟩, length)
  else if (bytes.drop length).head? = some (ascii '.') then
    (.error ⟨asciis "numbers in this language are integers: no value in the desired-state document is a float", none⟩, length)
  else match digitsValue limit digits with
    | none =>
      (.error ⟨asciis "number " ++ (bytes.take length).take 40 ++
        asciis " does not fit in 64 bits", none⟩, length)
    | some value => (.ok (.number (if negative then -(value : ℤ) else value)), length)

def escaped (c : UInt8) : Option UInt8 :=
  if c = ascii '"' then some (ascii '"')
  else if c = 92 then some 92
  else if c = ascii 'n' then some 10
  else if c = ascii 't' then some 9
  else none

def unterminated : Fault where
  message :=
    asciis "unterminated string: a string runs to its closing quote, across lines if need be"

/-- The loop of `lex_string`, with how many bytes were taken and the text so far. -/
def scanString : ℕ → Bytes → Bytes → Except Fault Bytes × ℕ
  | n, _, [] => (.error unterminated, n)
  | n, text, b :: rest =>
    if b = ascii '"' then (.ok text, n + 1)
    else if b = 92 then
      match rest with
      | [] => (.error unterminated, n + 1)
      | e :: rest =>
        match escaped e with
        | some c => scanString (n + 2) (text ++ [c]) rest
        | none =>
          (.error ⟨asciis "unknown escape \x60\\" ++ describeByte e ++
            asciis "\x60: the escapes are \\\" \\\\ \\n and \\t", some (n + 1)⟩, n + 2)
    else
      let invalid : Fault := ⟨asciis "string is not valid UTF-8", none⟩
      match utf8SequenceLength b, rest with
      | 1, rest =>
        if utf8IsValid [b] then scanString (n + 1) (text ++ [b]) rest
        else (.error invalid, n + 1)
      | 2, x :: rest =>
        if utf8IsValid [b, x] then scanString (n + 2) (text ++ [b, x]) rest
        else (.error invalid, n + 2)
      | 3, x :: y :: rest =>
        if utf8IsValid [b, x, y] then scanString (n + 3) (text ++ [b, x, y]) rest
        else (.error invalid, n + 3)
      | 4, x :: y :: z :: rest =>
        if utf8IsValid [b, x, y, z] then scanString (n + 4) (text ++ [b, x, y, z]) rest
        else (.error invalid, n + 4)
      | _, rest => (.error unterminated, n + 1 + rest.length)

/-- `lex_string`, from its opening quote on. -/
def lexString (bytes : Bytes) : Except Fault TokenKind × ℕ :=
  match scanString 1 [] bytes.tail with
  | (.error fault, n) => (.error fault, n)
  | (.ok text, n) =>
    if defaultLimit < text.length then
      (.error ⟨asciis "cannot hold a string that long: out of memory, or past the buffer's ceiling",
        none⟩, n)
    else (.ok (.string text), n)

def punctuation (c : UInt8) : Option TokenKind :=
  if c = 10 ∨ c = ascii ';' then some .terminator
  else if c = 123 then some .lbrace
  else if c = 125 then some .rbrace
  else if c = 91 then some .lbracket
  else if c = 93 then some .rbracket
  else if c = ascii '=' then some .equals
  else if c = ascii ',' then some .comma
  else none

/-- The token bytes start with, that no trivia does, and how many bytes it takes. -/
def tokenOf (bytes : Bytes) : Except Fault TokenKind × ℕ :=
  match bytes with
  | [] => (.ok .eof, 0)
  | c :: _ =>
    match punctuation c with
    | some kind => (.ok kind, 1)
    | none =>
      if c = ascii '"' then lexString bytes
      else if c = ascii '-' ∨ isDigit c then lexNumber bytes
      else if isIdentStart c then (.ok (lexIdent bytes).1, (lexIdent bytes).2)
      else
        (.error ⟨asciis "unexpected character \x60" ++ describeByte c ++ asciis "\x60", none⟩, 1)

def quoted (text : Bytes) : Bytes := asciis "\x60" ++ text ++ asciis "\x60"

/-- `ncfg_token_describe`, of a name up to a NUL. -/
def TokenKind.describe : TokenKind → Bytes
  | .ident text => quoted text
  | .string _ => asciis "a string"
  | .number _ => asciis "a number"
  | .boolean _ => asciis "a boolean"
  | .lbrace => asciis "\x60\x7b\x60"
  | .rbrace => asciis "\x60\x7d\x60"
  | .lbracket => asciis "\x60[\x60"
  | .rbracket => asciis "\x60]\x60"
  | .equals => asciis "\x60=\x60"
  | .comma => asciis "\x60,\x60"
  | .terminator => asciis "end of statement"
  | .eof => asciis "end of file"

/-! ## The cursor -/

/-- `ncfg_lexer_t`, with what is left of the text. -/
structure Lexer where
  rest : Bytes
  position : ℕ := 0
  line : ℕ := 1
  column : ℕ := 1

/-- `bump`. -/
def Lexer.bump (l : Lexer) : Lexer :=
  match l.rest with
  | [] => l
  | c :: rest =>
    if c = 10 then { rest, position := l.position + 1, line := l.line + 1, column := 1 }
    else { rest, position := l.position + 1, line := l.line, column := l.column + 1 }

def Lexer.advance : ℕ → Lexer → Lexer
  | 0, l => l
  | n + 1, l => l.bump.advance n

/-- `span_here`. -/
def Lexer.here (l : Lexer) : Span := ⟨l.position, 0, l.line, l.column⟩

/-- `ncfg_lexer_next` : a token, or where and what is wrong, and the cursor after it. -/
def Lexer.next (l : Lexer) : Except (Span × Bytes) Token × Lexer :=
  let start := l.advance (trivia l.rest)
  let (result, n) := tokenOf start.rest
  match result with
  | .ok kind => (.ok ⟨kind, { start.here with length := n }⟩, start.advance n)
  | .error fault =>
    let span := match fault.escape with
      | none => { start.here with length := n }
      | some k => { (start.advance k).here with length := 1 }
    (.error (span, fault.message), start.advance n)

/-! ## The body of a hook -/

/-- `is_closing_line`. -/
def isClosingLine (line : Bytes) : Bool :=
  ((line.dropWhile isSpace).reverse.dropWhile isSpace).reverse = [125]

/-- The loop of `ncfg_lexer_hook_body`, in a line : the body and how many bytes were read, up to the
closing line and with it. -/
def hookBodyIn : Bytes → Bytes → Option (Bytes × ℕ)
  | line, [] => if line ≠ [] ∧ isClosingLine line then some ([], line.length) else none
  | line, c :: rest =>
    if c = 10 then
      if isClosingLine (line ++ [c]) then some ([], line.length + 1)
      else (hookBodyIn [] rest).map fun read =>
        (line ++ [c] ++ read.1, line.length + 1 + read.2)
    else hookBodyIn (line ++ [c]) rest

/-- `ncfg_lexer_hook_body`. -/
def Lexer.hookBody (l : Lexer) : Except (Span × Bytes) Bytes × Lexer :=
  match hookBodyIn [] l.rest with
  | none =>
    (.error ({ l.here with length := l.rest.length }, asciis "unterminated hook body: a hook body ends at the first line containing only a closing brace"), l.advance l.rest.length)
  | some (body, n) =>
    if defaultLimit < body.length then
      (.error ({ l.here with length := n }, asciis "cannot hold a hook body that long: out of memory, or past the buffer's ceiling"), l.advance n)
    else (.ok body, l.advance n)

end Netcfgd.Parse
