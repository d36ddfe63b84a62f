import Netcfgd.JsonWrite

/-!
# One file of the host

A name in a directory holds nothing, a file or a symbolic link. What it holds is read whole, and
written either beside it and renamed over it, or, where its directory takes no new entry, in
place. The outcome of every call is the host's, so the writer and the reader are given the
outcomes.

A write beside the file puts the whole text there or leaves the name as it was. A write in place
truncates the file before it has the text in it : what it leaves on a failure is the part of the
text that the host took (`configWriteAtomically_cases`).
-/

namespace Netcfgd.Host

open Netcfgd.Json (ascii asciis)

abbrev Bytes := List UInt8

/-! ## Names and what they hold -/

/-- What a name in a directory holds. The contents of a link are those of the file it leads to,
if there is one. Owner and mode of a file are left out : nothing here reads them. -/
inductive Entry
  | absent
  | regular (contents : Bytes)
  | link (target : Option Bytes)
  deriving DecidableEq, Repr

/-- What an `open` of the name finds to read. -/
def Entry.contents : Entry → Option Bytes
  | .absent => none
  | .regular contents => some contents
  | .link target => target

abbrev Disk := Bytes → Entry

/-! ## Reading -/

/-- Why a file was not read, by the `errno` left behind. -/
inductive Unread
  /-- `ENOENT`. -/
  | absent
  /-- `EFBIG`, which the reader sets itself. -/
  | tooLarge
  /-- What the host says of a file that is there. -/
  | other
  deriving DecidableEq, Repr

/-- `ncfg_host_read_file`. `fault` is a call that fails although something is there. -/
def readFile (ceiling : ℕ) (fault : Bool) (e : Entry) : Except Unread Bytes :=
  match e.contents with
  | none => .error (if fault then .other else .absent)
  | some contents =>
    if fault then .error .other
    else if ceiling < contents.length then .error .tooLarge
    else .ok contents

/-! ## The write loop -/

/-- What a call of `write` answers. -/
inductive Put
  | took (n : ℕ)
  /-- `EINTR`. -/
  | interrupted
  | failed
  deriving DecidableEq, Repr

/-- The bytes written when the loop of `write_all` ends, of `length` in all. Answers that run out
are a call that fails. -/
def writeAll (length : ℕ) : ℕ → List Put → ℕ
  | written, [] => written
  | written, .took n :: puts =>
    if written < length then writeAll length (written + min n (length - written)) puts else written
  | written, .interrupted :: puts => writeAll length written puts
  | written, .failed :: _ => written

/-! ## The writers -/

/-- The outcomes of the calls of `ncfg_host_write_atomically`, in order. -/
structure Staging where
  directory : Bool
  opened : Bool
  puts : List Put
  flushed : Bool
  closed : Bool
  renamed : Bool
  deriving DecidableEq, Repr

def Staging.succeeds (s : Staging) (length : ℕ) : Bool :=
  s.directory && s.opened && writeAll length 0 s.puts == length && s.flushed && s.closed &&
    s.renamed

/-- `ncfg_host_write_atomically` : the temporary has a name of its own, so that the file is as it
was until the rename. A rename takes the place of a link, not of what the link leads to. -/
def hostWriteAtomically (s : Staging) (bytes : Bytes) (e : Entry) : Entry × Bool :=
  if s.succeeds bytes.length then (.regular bytes, true) else (e, false)

/-- The outcomes of the calls of `ncfg_config_write_in_place`. -/
structure InPlace where
  opened : Bool
  puts : List Put
  flushed : Bool
  closed : Bool
  chmodded : Bool
  deriving DecidableEq, Repr

/-- Whether every call after the `open` is a success. -/
def InPlace.completes (o : InPlace) (length : ℕ) : Bool :=
  writeAll length 0 o.puts == length && o.flushed && o.closed && o.chmodded

/-- `ncfg_config_write_in_place` : an existing file only, and not through a link. The `open`
truncates. -/
def writeInPlace (o : InPlace) (bytes : Bytes) : Entry → Entry × Bool
  | .regular old =>
    if o.opened then
      (.regular (bytes.take (writeAll bytes.length 0 o.puts)), o.completes bytes.length)
    else (.regular old, false)
  | e => (e, false)

/-- The outcomes of one write : of the staging, of `directory_refuses`, which asks why it failed,
and of the write in place. -/
structure Attempt where
  staging : Staging
  refuses : Bool
  inPlace : InPlace
  deriving DecidableEq, Repr

/-- What a write leaves, whether it returns 1, and `denied`. -/
structure Written where
  entry : Entry
  ok : Bool
  denied : Bool := false
  deriving DecidableEq, Repr

/-- `ncfg_config_write_atomically`. -/
def configWriteAtomically (a : Attempt) (bytes : Bytes) (e : Entry) : Written :=
  match hostWriteAtomically a.staging bytes e with
  | (entry, true) => ⟨entry, true, false⟩
  | (entry, false) =>
    if a.refuses then
      let (entry, ok) := writeInPlace a.inPlace bytes entry
      ⟨entry, ok, true⟩
    else ⟨entry, false, false⟩

/-- The write goes to the file in place and fails after the truncation. -/
def Attempt.Tears (a : Attempt) (bytes : Bytes) (e : Entry) : Prop :=
  a.staging.succeeds bytes.length = false ∧ a.refuses = true ∧ a.inPlace.opened = true ∧
    a.inPlace.completes bytes.length = false ∧ ∃ old, e = .regular old

def Attempt.taken (a : Attempt) (bytes : Bytes) : Bytes :=
  bytes.take (writeAll bytes.length 0 a.inPlace.puts)

theorem InPlace.writeAll_of_completes {o : InPlace} {length : ℕ} (h : o.completes length = true) :
    writeAll length 0 o.puts = length := by
  simp only [InPlace.completes, Bool.and_eq_true, beq_iff_eq] at h
  exact h.1.1.1

/-- Every write is one of three : it puts the whole text there, it leaves the name as it was, or
it fails after it truncated the file, with a part of the text in it. -/
theorem configWriteAtomically_cases (a : Attempt) (bytes : Bytes) (e : Entry) :
    ((configWriteAtomically a bytes e).ok = true ∧ ¬a.Tears bytes e ∧
        (configWriteAtomically a bytes e).entry = .regular bytes) ∨
      ((configWriteAtomically a bytes e).ok = false ∧ ¬a.Tears bytes e ∧
        (configWriteAtomically a bytes e).entry = e) ∨
      ((configWriteAtomically a bytes e).ok = false ∧ a.Tears bytes e ∧
        (configWriteAtomically a bytes e).entry = .regular (a.taken bytes)) := by
  rcases hstaged : a.staging.succeeds bytes.length with _ | _
  swap
  · exact .inl (by simp [configWriteAtomically, hostWriteAtomically, Attempt.Tears, hstaged])
  rcases hrefuses : a.refuses with _ | _
  · exact .inr (.inl (by simp [configWriteAtomically, hostWriteAtomically, Attempt.Tears, hstaged,
      hrefuses]))
  rcases e with _ | old | target
  · exact .inr (.inl (by simp [configWriteAtomically, hostWriteAtomically, writeInPlace,
      Attempt.Tears, hstaged, hrefuses]))
  swap
  · exact .inr (.inl (by simp [configWriteAtomically, hostWriteAtomically, writeInPlace,
      Attempt.Tears, hstaged, hrefuses]))
  rcases hopened : a.inPlace.opened with _ | _
  · exact .inr (.inl (by simp [configWriteAtomically, hostWriteAtomically, writeInPlace,
      Attempt.Tears, hstaged, hrefuses, hopened]))
  rcases hcompletes : a.inPlace.completes bytes.length with _ | _
  · exact .inr (.inr (by simp [configWriteAtomically, hostWriteAtomically, writeInPlace,
      Attempt.Tears, Attempt.taken, hstaged, hrefuses, hopened, hcompletes]))
  · exact .inl (by simp [configWriteAtomically, hostWriteAtomically, writeInPlace, Attempt.Tears,
      hstaged, hrefuses, hopened, hcompletes, InPlace.writeAll_of_completes hcompletes])

theorem configWriteAtomically_ok {a : Attempt} {bytes : Bytes} {e : Entry}
    (h : (configWriteAtomically a bytes e).ok = true) :
    (configWriteAtomically a bytes e).entry = .regular bytes := by
  rcases configWriteAtomically_cases a bytes e with ⟨-, -, hentry⟩ | ⟨hok, -⟩ | ⟨hok, -⟩
  · exact hentry
  · simp [hok] at h
  · simp [hok] at h

theorem configWriteAtomically_link {a : Attempt} {bytes : Bytes} {target : Option Bytes} :
    (configWriteAtomically a bytes (.link target)).ok = a.staging.succeeds bytes.length := by
  rcases hstaged : a.staging.succeeds bytes.length with _ | _ <;>
    rcases hrefuses : a.refuses with _ | _ <;>
    simp [configWriteAtomically, hostWriteAtomically, writeInPlace, hstaged, hrefuses]

/-! ## Names a client may choose -/

/-- A control character at the start : C0, delete, or the C1 block as UTF-8 spells it. -/
def startsControl : Bytes → Bool
  | [] => false
  | one :: rest =>
    one < 0x20 || one == 0x7f || (one == 0xc2 && match rest with
      | [] => false
      | next :: _ => 0x80 ≤ next && next ≤ 0x9f)

/-- `ncfg_secret_name_usable` : why a name cannot be used, if it cannot. -/
def secretNameWhy (name : Bytes) : Option Bytes :=
  if name = [] then some (asciis "it is empty")
  else if 64 < name.length then some (asciis "it is longer than 64 bytes")
  else if ascii '"' ∈ name ∨ ascii '\\' ∈ name then
    some (asciis "it contains a quote or a backslash")
  else if ascii '/' ∈ name then
    some (asciis "it contains a path separator, and it names a file")
  else if asciis ".." <:+: name ∨ name.head? = some (ascii '.') then
    some (asciis "it would name a hidden file or one outside the directory")
  else if name.tails.any startsControl then some (asciis "it contains a control character")
  else none

/-- `ncfg_host_join`. -/
def join (directory leaf : Bytes) : Bytes := directory ++ ascii '/' :: leaf

/-- `ncfg_config_drop_in_path`. -/
def dropInPath (configDir name : Bytes) : Bytes :=
  join (join configDir (asciis "conf.d")) (name ++ asciis ".conf")

end Netcfgd.Host
