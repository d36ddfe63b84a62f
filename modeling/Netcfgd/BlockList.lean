import Netcfgd.DhcpServer
import Mathlib.Data.Char
import Mathlib.Data.List.Lex
import Mathlib.Data.List.Sort

/-!
# Block lists

The names a DHCP server's forwarder refuses, `backend/dhcp_server/block.c` : the lines of a
downloaded list reduced to one name each (`nameOfLine`), the lists of a server gathered, sorted and
written as the file dnsmasq reads (`blockWrite`).

A list is read with `fgets` into a buffer of 1024 bytes, and what was read is taken up to its first
NUL byte.
-/

namespace Netcfgd.DhcpServer

open Netcfgd.Resolver (Text unlines)

local instance lawfulBEqText : @LawfulBEq Text List.instBEq := List.instLawfulBEq

/-! ## Names -/

/-- The labels of a blocked name, from the length of the label so far. -/
def blockLabels : ℕ → Text → Bool
  | label, [] => label ≠ 0
  | label, c :: rest =>
    if c = '.' then label ≠ 0 && blockLabels 0 rest
    else ('a' ≤ c && c ≤ 'z' || '0' ≤ c && c ≤ '9' || c = '-' || c = '_') && label < 63 &&
      blockLabels (label + 1) rest

/-- `ncfg_block_list_name`. -/
def blockListName (name : Text) : Bool := name ≠ [] && name.length ≤ 253 && blockLabels 0 name

/-- `ncfg_block_list_check`, whether a list passes it. -/
def blockListCheck (l : BlockList) : Bool :=
  blockListLabel l.name && (!l.domain.isEmpty || !l.file.isEmpty) && l.domain.all blockListName &&
    l.allow.all blockListName && (l.url.isEmpty || l.url.length = l.file.length) &&
    (l.url.all fun u => (u.take 8 = "https://".toList || u.take 7 = "http://".toList) &&
      optionText u 2047 " \"\\") &&
    l.file.all fun f => f.head? = some '/' && optionText f 4095 ""

/-- `null_address`. -/
def nullAddress (word : Text) : Bool :=
  word ∈ ["0.0.0.0".toList, "127.0.0.1".toList, "::".toList, "::1".toList, "0".toList]

/-- The word of a line that is to be a name, by the dialect of the line. -/
def wordOfLine (line : Text) : Option Text :=
  let blank := fun c => c = ' ' || c = '\t'
  if 9 < line.length ∧ (line.take 9 = "address=/".toList ∨ line.take 7 = "local=/".toList ∨
      line.take 8 = "server=/".toList) then
    let rest := (line.dropWhile (· ≠ '/')).drop 1
    if '/' ∈ rest then some (rest.takeWhile (· ≠ '/')) else none
  else if 3 < line.length ∧ line.take 2 = "||".toList ∧ line.getLast? = some '^' then
    some (line.drop 2).dropLast
  else
    let first := line.takeWhile fun c => !blank c
    if first.length < line.length then
      if nullAddress first then
        some (((line.drop first.length).dropWhile blank).takeWhile fun c => !blank c && c ≠ '#')
      else none
    else some line

/-- `ncfg_block_list_name_of_line`. The name is a C text, up to a NUL in the word. -/
def nameOfLine (line : Text) : Option Text :=
  let line := line.dropWhile fun c => c = ' ' || c = '\t'
  let line := (line.reverse.dropWhile fun c => c = ' ' || c = '\t' || c = '\r').reverse
  if line = [] ∨ line.head? = some '#' ∨ line.head? = some '!' then none
  else
    (wordOfLine line).bind fun word =>
      if word = [] ∨ 256 ≤ word.length then none
      else
        let name := (word.map Char.toLower).takeWhile (· ≠ '\x00')
        if name ∈ ["localhost".toList, "localhost.localdomain".toList, "local".toList,
            "broadcasthost".toList, "ip6-localhost".toList, "ip6-loopback".toList] ∨
            '.' ∉ name then none
        else if blockListName name then some name else none

/-! ## Reading a list -/

/-- `BLOCK_LINE_MAX`, less the NUL `fgets` ends its buffer with. -/
def lineMax : ℕ := 1023

/-- `fgets` : up to so many bytes, a newline being the last, and the rest. -/
def fgets : ℕ → Text → Text × Text
  | 0, bytes => ([], bytes)
  | _, [] => ([], [])
  | n + 1, c :: bytes =>
    if c = '\n' then ([c], bytes) else (c :: (fgets n bytes).1, (fgets n bytes).2)

/-- The loop of `read_list` : the texts that are taken for lines. One that does not end in a
newline, as far as it is a C text, is taken for the start of a long one, and what is left of the
line is skipped. -/
def heardIn : ℕ → Text → List Text
  | 0, _ => []
  | _, [] => []
  | fuel + 1, bytes =>
    let (line, rest) := fgets lineMax bytes
    let text := line.takeWhile (· ≠ '\x00')
    let ended := line.length < lineMax ∧ line.getLast? ≠ some '\n'
    if text ≠ [] ∧ text.getLast? ≠ some '\n' ∧ ¬ended then
      heardIn fuel ((rest.dropWhile (· ≠ '\n')).drop 1)
    else
      (if text.getLast? = some '\n' then text.dropLast else text) :: heardIn fuel rest

def heard (bytes : Text) : List Text := heardIn (bytes.length + 1) bytes

/-- `read_list`, of the bytes of a file that is usable. -/
def readList (bytes : Text) : List Text := (heard bytes).filterMap nameOfLine

/-! ## The block file -/

/-- `BLOCK_CANARY`. -/
def canary : Text := "use-application-dns.net".toList

/-- `NCFG_BLOCK_NAMES_MAX`. -/
def namesMax : ℕ := 1048576

/-- The lists a server blocks, in its order. -/
def listsOf (d : Document) (s : Server) : List BlockList := s.block.filterMap (findList d)

/-- The names of the lists and of their files, before the allowed are taken out. -/
def gathered (d : Document) (files : Text → Option Text) (s : Server) : List Text :=
  canary :: (listsOf d s).flatMap fun l =>
    l.domain ++ l.file.flatMap fun path => ((files path).map readList).getD []

/-- The names the lists allow. -/
def allowed (d : Document) (s : Server) : List Text := (listsOf d s).flatMap BlockList.allow

def once : Option Text → List Text → List Text
  | _, [] => []
  | last, x :: rest => if last = some x then once (some x) rest else x :: once (some x) rest

/-- The names that are blocked : what was gathered, sorted, each once, less what is allowed. -/
def blocked (d : Document) (files : Text → Option Text) (s : Server) : List Text :=
  (once none (((gathered d files s).take namesMax).insertionSort (· ≤ ·))).filter
    fun n => n ∉ allowed d s

def addressLine (name : Text) : Line := .set "address".toList ('/' :: name ++ ['/'])

def allowLine (name : Text) : Line := .set "server".toList ('/' :: name ++ "/#".toList)

def blockLines (d : Document) (files : Text → Option Text) (s : Server) : List Line :=
  [Line.comment (" Written by netcfgd from the block lists (decision 0305). Do not edit; it is " ++
      "rewritten on apply.").toList] ++
    (if namesMax < (gathered d files s).length then
      [Line.comment (" The lists hold more than ".toList ++ intText namesMax ++
        " names; the rest are left out.".toList)] else []) ++
    (blocked d files s).map addressLine ++ (allowed d s).map allowLine ++
    [Line.comment (' ' :: intText (blocked d files s).length ++ " names blocked".toList)]

/-- `BLOCK_FILE_MAX`. -/
def blockFileMax : ℕ := namesMax * 300

/-- `ncfg_dhcp_server_block_write`. -/
def blockWrite (d : Document) (files : Text → Option Text) (s : Server) : Option Text :=
  let text := unlines ((blockLines d files s).map Line.text)
  if text.length ≤ blockFileMax then some text else none

end Netcfgd.DhcpServer
