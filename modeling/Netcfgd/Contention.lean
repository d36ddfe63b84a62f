import Mathlib.Data.List.DropRight
import Netcfgd.Separated
import Netcfgd.SocketReach

/-!
# What another daemon holds

`src/apply/contention.c`. netcfgd starts no second daemon on a device another one manages, and reads
what the others say of a device : NetworkManager and systemd-networkd in a file for each, OpenWrt's
netifd in `/etc/config/network`, which is written by hand.

Both readers take a file in pieces of 511 bytes. `file_states` skips a line that is longer, and
looks at 512 lines (`compared`, `fileStates_iff`) ; `netifd_configures` takes a longer line for
several, and looks at 512 of what it takes for lines (`cut`, `netifdConfigures_iff`). So a file can
state a claim that is not read, or be read as stating one that it does not, and `held_iff_readable`
says exactly when. A file of 512 short lines at most is read as it stands (`held_iff_of_plain`).
-/

namespace Netcfgd.Contention

open Netcfgd.Json (ascii asciis decimal)
open Netcfgd.Json.Writer (cString)
open Netcfgd.Reach (readLines)
open Netcfgd.Separated (segments_induction splitOn_of_not_mem splitOn_ne_nil)

abbrev Bytes := List UInt8

/-- `LINE_MAX_BYTES`. -/
def lineMaxBytes : ℕ := 512

/-- `LINE_LIMIT`. -/
def lineLimit : ℕ := 512

/-! ## A file that states a claim -/

/-- What `trim` takes off both ends. -/
def isSpace (c : UInt8) : Bool := c = ascii ' ' || c = 9 || c = 13 || c = 10

/-- `trim`. -/
def trim (text : Bytes) : Bytes := (text.dropWhile isSpace).rdropWhile isSpace

/-- What `fgets` gives of a file, one call after another. -/
def pieces (file : Bytes) : List Bytes := readLines lineMaxBytes [] file

/-- Whether a piece has the end of its line, as a string, or the end of the file came with it. -/
def whole (piece : Bytes) : Bool :=
  (cString piece).contains 10 || (!piece.contains 10 && piece.length + 1 < lineMaxBytes)

/-- The loop of `file_states`, with how many lines it still looks at. -/
def statesIn (wanted : Bytes) : Bool → ℕ → List Bytes → Bool
  | _, 0, _ => false
  | _, _, [] => false
  | skipping, lines + 1, piece :: rest =>
    if skipping then statesIn wanted (!whole piece) (lines + 1) rest
    else if !whole piece then statesIn wanted true (lines + 1) rest
    else trim (cString piece) = wanted || statesIn wanted false lines rest

/-- `file_states`, of a file that may not be there. -/
def fileStates (file : Option Bytes) (wanted : Bytes) : Bool :=
  file.any fun bytes => statesIn wanted false lineLimit (pieces bytes)

/-! ## What netifd is configured with -/

def isBlank (c : UInt8) : Bool := c = ascii ' ' || c = 9

/-- `uci_word` : the next word, with what is left of the line, or nothing at its end or at a
comment. -/
def uciWord (line : Bytes) : Option (Bytes × Bytes) :=
  match line.dropWhile isBlank with
  | [] => none
  | c :: rest =>
    if c = ascii '#' then none
    else if c = 39 ∨ c = ascii '"' then
      some (rest.takeWhile (· ≠ c), (rest.dropWhile (· ≠ c)).drop 1)
    else
      some ((c :: rest).takeWhile (!isBlank ·), ((c :: rest).dropWhile (!isBlank ·)).drop 1)

def uciWordsIn : ℕ → Bytes → List Bytes
  | 0, _ => []
  | n + 1, line =>
    match uciWord line with
    | none => []
    | some (word, rest) => word :: uciWordsIn n rest

def uciWords (line : Bytes) : List Bytes := uciWordsIn line.length line

/-- `names_device`. -/
def namesDevice (value wanted : Bytes) : Bool := (uciWords value).contains wanted

/-- What kind of section the lines of a file are in. -/
structure Section where
  inInterface : Bool := false
  inDevice : Bool := false

def Section.names (s : Section) (key : Bytes) : Bool :=
  (s.inInterface && (key = asciis "device" || key = asciis "ifname")) ||
    (s.inDevice && (key = asciis "name" || key = asciis "ports"))

/-- What a line does : the section the next ones are in, and the value that names devices, if the
line has one. -/
def readSetting (s : Section) (line : Bytes) : Section × Option Bytes :=
  match uciWord line with
  | none => (s, none)
  | some (kind, rest) =>
    match uciWord rest with
    | none => (s, none)
    | some (key, rest) =>
      if kind = asciis "config" then
        (⟨key = asciis "interface", key = asciis "device"⟩, none)
      else if kind = asciis "option" ∨ kind = asciis "list" then
        (s, if s.names key then (uciWord rest).map Prod.fst else none)
      else (s, none)

/-- The loop of `netifd_configures`, with how many pieces it still looks at. -/
def configuresIn (wanted : Bytes) : Section → ℕ → List Bytes → Bool
  | _, 0, _ => false
  | _, _, [] => false
  | s, lines + 1, piece :: rest =>
    let read := readSetting s (trim (cString piece))
    read.2.any (namesDevice · wanted) || configuresIn wanted read.1 lines rest

/-- `netifd_configures`, of a file that may not be there. -/
def netifdConfigures (file : Option Bytes) (wanted : Bytes) : Bool :=
  file.any fun bytes => configuresIn wanted {} lineLimit (pieces bytes)

/-! ## The machine -/

/-- What a check reads of the machine : files, links and directories by their paths. -/
structure Machine where
  read : Bytes → Option Bytes
  readlink : Bytes → Option Bytes
  readdir : Bytes → Option (List Bytes)

/-- `ncfg_contention_where_t`. -/
structure Where where
  runRoot : Option Bytes
  procRoot : Option Bytes
  runRootIsTheMachines : Bool := false
  etcRoot : Option Bytes := none

/-- `ncfg_interface_claim_t`. -/
structure InterfaceClaim where
  name : Option Bytes
  index : UInt32

inductive Daemon
  | networkManager
  | networkd
  | netifd
deriving DecidableEq

def Daemon.title : Daemon → String
  | networkManager => "NetworkManager"
  | networkd => "systemd-networkd"
  | netifd => "netifd"

/-- The names it runs under, which the kernel cuts at fifteen characters. -/
def Daemon.names : Daemon → List Bytes
  | networkManager => [asciis "NetworkManager"]
  | networkd => [asciis "systemd-network", asciis "systemd-networkd"]
  | netifd => [asciis "netifd"]

def Daemon.remedy : Daemon → String
  | networkManager => "nmcli device set \x7b\x7d managed no"
  | networkd => "remove the .network file matching \x7b\x7d, or set Unmanaged=yes for it"
  | netifd => "take \x7b\x7d out of /etc/config/network, then \x60/etc/init.d/network reload\x60"

/-- `namespace_of`. -/
def namespaceOf (m : Machine) (procRoot who : Bytes) : Option Bytes :=
  let path := procRoot ++ asciis "/" ++ who ++ asciis "/ns/net"
  if 512 ≤ path.length then none else (m.readlink path).map fun link => cString (link.take 63)

/-- `run_root_is_ours`. -/
def runRootIsOurs (m : Machine) (machines : Bool) (procRoot : Bytes) : Bool :=
  !machines ||
    match namespaceOf m procRoot (asciis "self"), namespaceOf m procRoot (asciis "1") with
    | some ours, some init => ours = init
    | _, _ => true

/-- The name a process runs under, as `running_daemons` reads it. -/
def comm (m : Machine) (procRoot entry : Bytes) : Option Bytes :=
  let path := procRoot ++ asciis "/" ++ entry ++ asciis "/comm"
  if 512 ≤ path.length then none
  else (m.read path).bind fun file =>
    (readLines 32 [] file).head?.map fun line => trim (cString line)

/-- `running_daemons` : a `/proc` that cannot be read means all of them. -/
def running (m : Machine) (procRoot : Bytes) (d : Daemon) : Bool :=
  (m.readdir procRoot).all fun entries =>
    entries.any fun entry =>
      entry ≠ [] && entry.all (fun c => ascii '0' ≤ c && c ≤ ascii '9') &&
        (comm m procRoot entry).any fun name => d.names.contains name

/-! ## The claims -/

/-- `compare_names`, as an order. -/
def nameLe (a b : Bytes) : Bool := (compare a b).isLE

/-- The claims with a name that meet a condition, by their names and sorted. -/
def namesOf (claims : List InterfaceClaim) (holds : InterfaceClaim → Bytes → Bool) : List Bytes :=
  (claims.filterMap fun c => c.name.filter (holds c)).mergeSort nameLe

def deviceFile (runRoot : Bytes) (directory : String) (index : UInt32) : Bytes :=
  runRoot ++ asciis "/" ++ asciis directory ++ asciis "/" ++ decimal index.toNat

/-- `claims_under`. -/
def claimsUnder (m : Machine) (runRoot : Bytes) (directory wanted : String)
    (claims : List InterfaceClaim) : List Bytes :=
  namesOf claims fun c _ =>
    let path := deviceFile runRoot directory c.index
    path.length < 1024 && fileStates (m.read path) (asciis wanted)

def networkFile (etcRoot : Bytes) : Bytes := etcRoot ++ asciis "/config/network"

/-- `netifd_claims`. -/
def netifdClaims (m : Machine) (etcRoot : Bytes) (claims : List InterfaceClaim) : List Bytes :=
  namesOf claims fun _ name =>
    (networkFile etcRoot).length < 1024 && netifdConfigures (m.read (networkFile etcRoot)) name

/-- What each daemon is read to hold. -/
def claimedBy (m : Machine) (runRoot : Bytes) (etcRoot : Option Bytes)
    (claims : List InterfaceClaim) : Daemon → List Bytes
  | .networkManager => claimsUnder m runRoot "NetworkManager/devices" "managed=true" claims
  | .networkd => claimsUnder m runRoot "systemd/netif/links" "ADMIN_STATE=configured" claims
  | .netifd => (etcRoot.map fun etc => netifdClaims m etc claims).getD []

/-- `ncfg_contender_t`. -/
structure Contender where
  name : String
  interfaces : List Bytes
  remedy : String

/-- `ncfg_contenders_find`. -/
def contendersFind (m : Machine) (w : Option Where) (claims : List InterfaceClaim) :
    Except String (List Contender) :=
  match w with
  | some ⟨some runRoot, some procRoot, machines, etcRoot⟩ =>
    if !runRootIsOurs m machines procRoot then .ok []
    else .ok <| [Daemon.networkManager, .networkd, .netifd].filterMap fun d =>
      let names := claimedBy m runRoot etcRoot claims d
      if running m procRoot d ∧ names ≠ [] then some ⟨d.title, names, d.remedy⟩ else none
  | _ => .error "a contention check has to be told where to read \x60/run\x60 and \x60/proc\x60"

/-! ## The lines of a file -/

def lastPiece (line : Bytes) : Bytes := line.drop (511 * (line.length / 511))

/-- The lines of a file that are looked at, from one on that follows the rest of a long line or does
not. A line counts that has at most 510 bytes and no NUL, and a line whose last piece has a NUL
takes the next one with it. The last line counts up to its NUL. -/
def compared : Bool → List Bytes → List Bytes
  | _, [] => []
  | after, [line] => if after ∨ line = [] ∨ 510 < line.length then [] else [cString line]
  | after, line :: next :: lines =>
    if after ∨ 510 < line.length ∨ 0 ∈ line then compared (0 ∈ lastPiece line) (next :: lines)
    else line :: compared false (next :: lines)

/-- What tells of a claim : the file, what it has to state, and what the reader takes for that. -/
structure Evidence where
  path : Option Bytes
  stated : Bytes → Prop
  read : Bytes → Prop

section Pieces

variable {line rest : Bytes}

theorem readLines_append {size : ℕ} : ∀ {acc line : Bytes}, 10 ∉ line →
    acc.length + line.length + 1 < size →
    readLines size acc (line ++ rest) = readLines size (acc ++ line) rest
  | acc, [], _, _ => by rw [List.nil_append, List.append_nil]
  | acc, c :: line, hline, hsize => by
    simp only [List.length_cons] at hsize
    have hc : c ≠ 10 := fun h => hline (h ▸ List.mem_cons_self)
    rw [List.cons_append, readLines, if_neg (by push Not; exact ⟨hc, by omega⟩),
      readLines_append (fun h => hline (List.mem_cons_of_mem c h))
        (by simp only [List.length_append, List.length_singleton]; omega),
      List.append_assoc, List.singleton_append]

theorem pieces_line (hline : 10 ∉ line) (hshort : line.length ≤ 510) :
    pieces (line ++ 10 :: rest) = (line ++ [10]) :: pieces rest := by
  unfold pieces lineMaxBytes
  rw [readLines_append hline (by simp only [List.length_nil]; omega), List.nil_append, readLines,
    if_pos (.inl rfl)]

theorem pieces_last (hline : 10 ∉ line) (hshort : line.length ≤ 510) :
    pieces line = if line = [] then [] else [line] := by
  unfold pieces lineMaxBytes
  have h := @readLines_append [] 512 [] line hline (by simp only [List.length_nil]; omega)
  rw [List.append_nil, List.nil_append] at h
  rw [h, readLines]

theorem pieces_long (hline : 10 ∉ line) (hlong : 511 ≤ line.length) :
    pieces (line ++ rest) = line.take 511 :: pieces (line.drop 511 ++ rest) := by
  unfold pieces lineMaxBytes
  obtain ⟨c, back, hback⟩ : ∃ c back, line.drop 510 = c :: back :=
    List.exists_cons_of_ne_nil fun h => by
      have := congrArg List.length h
      rw [List.length_drop, List.length_nil] at this
      omega
  have hfront : 10 ∉ line.take 510 := fun h => hline (List.mem_of_mem_take h)
  have hlength : (line.take 510).length = 510 := by rw [List.length_take]; omega
  have hsplit : line = line.take 510 ++ c :: back := by rw [← hback, List.take_append_drop]
  have htake : line.take 511 = line.take 510 ++ [c] := by
    rw [List.take_add (i := 510) (j := 1), hback, List.take_succ_cons, List.take_zero]
  have hdrop : line.drop 511 = back := by
    rw [show 511 = 510 + 1 from rfl, ← List.drop_drop, hback, List.drop_one, List.tail_cons]
  conv_lhs => rw [hsplit, List.append_assoc, List.cons_append]
  rw [readLines_append hfront (by simp only [List.length_nil]; omega), List.nil_append, readLines,
    if_pos (.inr (by omega)), htake, hdrop]

theorem lastPiece_of_short (h : line.length ≤ 510) : lastPiece line = line := by
  unfold lastPiece
  rw [Nat.div_eq_of_lt (by omega), Nat.mul_zero, List.drop_zero]

theorem lastPiece_drop (h : 511 ≤ line.length) : lastPiece (line.drop 511) = lastPiece line := by
  unfold lastPiece
  rw [List.drop_drop, List.length_drop]
  congr 1
  omega

theorem cString_of_no_nul (h : 0 ∉ line) : cString line = line := by
  unfold cString
  rw [List.takeWhile_eq_self_iff]
  intro c hc
  simpa using fun heq : c = 0 => h (heq ▸ hc)

theorem cString_append (h : 0 ∈ line) : cString (line ++ rest) = cString line := by
  unfold cString
  rw [List.takeWhile_append, if_neg]
  intro hall
  have hself := (List.takeWhile_prefix (l := line) (· ≠ 0)).eq_of_length hall
  rw [← hself] at h
  simpa using List.mem_takeWhile_imp h

theorem not_mem_cString {c : UInt8} (h : c ∉ line) : c ∉ cString line :=
  fun hc => h ((List.takeWhile_prefix _).mem hc)

theorem whole_line (hline : 10 ∉ line) : whole (line ++ [10]) = decide (0 ∉ line) := by
  unfold whole
  by_cases hnul : 0 ∈ line
  · rw [cString_append hnul]
    simp [hnul, not_mem_cString hline]
  · have hnul' : 0 ∉ line ++ [10] := by simp [hnul]
    rw [cString_of_no_nul hnul']
    simp [hnul]

theorem whole_last (hline : 10 ∉ line) (hshort : line.length ≤ 510) : whole line = true := by
  unfold whole lineMaxBytes
  simp [hline]
  omega

theorem whole_full (hline : 10 ∉ line) (hlong : 511 ≤ line.length) :
    whole (line.take 511) = false := by
  unfold whole lineMaxBytes
  have hfront : 10 ∉ line.take 511 := fun h => hline (List.mem_of_mem_take h)
  simp [not_mem_cString hfront]
  omega

theorem trim_newline (line : Bytes) : trim (line ++ [10]) = trim line := by
  unfold trim
  rw [List.dropWhile_append]
  split_ifs with h
  · rw [List.isEmpty_iff.1 h]
    rfl
  · exact List.rdropWhile_concat_pos _ _ _ rfl

end Pieces

/-! ## What is compared -/

section Compared

variable {wanted line rest : Bytes} {n : ℕ}

theorem statesIn_zero (skipping : Bool) (ps : List Bytes) :
    statesIn wanted skipping 0 ps = false := by
  cases ps <;> rfl

theorem statesIn_nil (skipping : Bool) : statesIn wanted skipping n [] = false := by
  cases n <;> rfl

theorem statesIn_part {skipping : Bool} {piece : Bytes} {ps : List Bytes}
    (h : whole piece = false) :
    statesIn wanted skipping n (piece :: ps) = statesIn wanted true n ps := by
  cases n with
  | zero => rw [statesIn_zero, statesIn_zero]
  | succ n => cases skipping <;> simp [statesIn, h]

theorem statesIn_skipping : ∀ {line : Bytes}, 10 ∉ line →
    statesIn wanted true n (pieces (line ++ 10 :: rest)) =
      statesIn wanted (0 ∈ lastPiece line) n (pieces rest) := by
  intro line
  induction h : line.length using Nat.strongRecOn generalizing line with
  | _ length ih =>
    intro hline
    rcases Nat.lt_or_ge line.length 511 with hshort | hlong
    · rw [pieces_line hline (by omega), lastPiece_of_short (by omega)]
      cases n with
      | zero => rw [statesIn_zero, statesIn_zero]
      | succ n => simp [statesIn, whole_line hline]
    · rw [pieces_long hline hlong, statesIn_part (whole_full hline hlong),
        ih _ (by rw [List.length_drop]; omega) rfl fun h => hline (List.mem_of_mem_drop h),
        lastPiece_drop hlong]

theorem statesIn_line (hline : 10 ∉ line) (hshort : line.length ≤ 510) (hnul : 0 ∉ line) :
    statesIn wanted false (n + 1) (pieces (line ++ 10 :: rest)) =
      (decide (trim line = wanted) || statesIn wanted false n (pieces rest)) := by
  have hcut : cString (line ++ [10]) = line ++ [10] := cString_of_no_nul (by simp [hnul])
  rw [pieces_line hline hshort, statesIn, whole_line hline, hcut, trim_newline]
  simp [hnul]

theorem statesIn_passed {after : Bool} (hline : 10 ∉ line)
    (h : after = true ∨ 510 < line.length ∨ 0 ∈ line) :
    statesIn wanted after n (pieces (line ++ 10 :: rest)) =
      statesIn wanted (0 ∈ lastPiece line) n (pieces rest) := by
  cases after with
  | true => exact statesIn_skipping hline
  | false =>
    rcases Nat.lt_or_ge line.length 511 with hshort | hlong
    · have hnul : 0 ∈ line := (h.resolve_left (by decide)).resolve_left (by omega)
      rw [pieces_line hline (by omega), statesIn_part (by rw [whole_line hline]; simpa using hnul),
        lastPiece_of_short (by omega), decide_eq_true hnul]
    · rw [pieces_long hline hlong, statesIn_part (whole_full hline hlong),
        statesIn_skipping fun h => hline (List.mem_of_mem_drop h), lastPiece_drop hlong]

theorem statesIn_tail : ∀ {line : Bytes}, 10 ∉ line →
    statesIn wanted true n (pieces line) = false := by
  intro line
  induction h : line.length using Nat.strongRecOn generalizing line with
  | _ length ih =>
    intro hline
    rcases Nat.lt_or_ge line.length 511 with hshort | hlong
    · rw [pieces_last hline (by omega)]
      split_ifs
      · rw [statesIn_nil]
      · cases n with
        | zero => rw [statesIn_zero]
        | succ n => simp [statesIn]
    · have hpieces := @pieces_long line [] hline hlong
      rw [List.append_nil, List.append_nil] at hpieces
      rw [hpieces, statesIn_part (whole_full hline hlong)]
      exact ih _ (by rw [List.length_drop]; omega) rfl fun h => hline (List.mem_of_mem_drop h)

theorem statesIn_last {after : Bool} (hline : 10 ∉ line) :
    statesIn wanted after (n + 1) (pieces line) =
      (compared after [line]).any fun l => trim l = wanted := by
  unfold compared
  cases after with
  | true => rw [statesIn_tail hline, if_pos (.inl rfl), List.any_nil]
  | false =>
    rcases Nat.lt_or_ge line.length 511 with hshort | hlong
    · rw [pieces_last hline (by omega)]
      by_cases hempty : line = []
      · rw [if_pos hempty, if_pos (.inr (.inl hempty))]
        rfl
      · rw [if_neg hempty, if_neg (by push Not; exact ⟨by decide, hempty, by omega⟩)]
        simp [statesIn, whole_last hline (by omega), statesIn_nil]
    · have hpieces := @pieces_long line [] hline hlong
      rw [List.append_nil, List.append_nil] at hpieces
      rw [hpieces, statesIn_part (whole_full hline hlong),
        statesIn_tail fun h => hline (List.mem_of_mem_drop h), if_pos (.inr (.inr (by omega))),
        List.any_nil]

end Compared

theorem statesIn_eq {wanted : Bytes} {n : ℕ} {after : Bool} (file : Bytes) :
    statesIn wanted after n (pieces file) =
      ((compared after (file.splitOn 10)).take n).any fun l => trim l = wanted := by
  induction file using @segments_induction _ _ (10 : UInt8) generalizing n after with
  | last line hline =>
    rw [splitOn_of_not_mem hline]
    cases n with
    | zero => rw [statesIn_zero, List.take_zero, List.any_nil]
    | succ n =>
      rw [statesIn_last hline, List.take_of_length_le]
      unfold compared
      split_ifs <;> simp
  | word line rest hline ih =>
    obtain ⟨next, lines, hrest⟩ := List.exists_cons_of_ne_nil (splitOn_ne_nil 10 rest)
    rw [List.splitOn_append_cons_self_of_not_mem hline, hrest, compared, ← hrest]
    by_cases h : after = true ∨ 510 < line.length ∨ 0 ∈ line
    · rw [if_pos h, statesIn_passed hline h, ih]
    · rw [if_neg h]
      push Not at h
      obtain ⟨hafter, hshort, hnul⟩ := h
      obtain rfl : after = false := by simpa using hafter
      cases n with
      | zero => rw [statesIn_zero, List.take_zero, List.any_nil]
      | succ n => rw [statesIn_line hline hshort hnul, ih, List.take_succ_cons, List.any_cons]

/-- Whether one of the lines the reader compares states a claim. -/
def StatedRead (file wanted : Bytes) : Prop :=
  ∃ line ∈ (compared false (file.splitOn 10)).take lineLimit, trim line = wanted

theorem fileStates_iff {file : Option Bytes} {wanted : Bytes} :
    fileStates file wanted = true ↔ ∃ bytes ∈ file, StatedRead bytes wanted := by
  unfold fileStates StatedRead
  cases file with
  | none => simp
  | some bytes => simp [statesIn_eq]

/-! ## The values of a file -/

def values : Section → List Bytes → List Bytes
  | _, [] => []
  | s, line :: lines =>
    (readSetting s line).2.toList ++ values (readSetting s line).1 lines

/-- What a line is taken for : itself up to its NUL, or its pieces of 511 bytes and what is left,
each for a line. -/
def cut (line : Bytes) : List Bytes :=
  if line.length ≤ 510 then [trim (cString line)]
  else trim (cString (line.take 511)) :: cut (line.drop 511)
termination_by line.length
decreasing_by
  rw [List.length_drop]
  omega

theorem cut_of_short {line : Bytes} (h : line.length ≤ 510) : cut line = [trim (cString line)] := by
  rw [cut, if_pos h]

theorem cut_of_long {line : Bytes} (h : 511 ≤ line.length) :
    cut line = trim (cString (line.take 511)) :: cut (line.drop 511) := by
  rw [cut, if_neg (by omega)]

/-- A line that others follow is read as it is cut. -/
theorem read_line {rest : Bytes} : ∀ {line : Bytes}, 10 ∉ line →
    (pieces (line ++ 10 :: rest)).map (fun piece => trim (cString piece)) =
      cut line ++ (pieces rest).map fun piece => trim (cString piece) := by
  intro line
  induction h : line.length using Nat.strongRecOn generalizing line with
  | _ length ih =>
    intro hline
    rcases Nat.lt_or_ge line.length 511 with hshort | hlong
    · have htrim : trim (cString (line ++ [10])) = trim (cString line) := by
        by_cases hnul : 0 ∈ line
        · rw [cString_append hnul]
        · rw [cString_of_no_nul hnul, cString_of_no_nul (by simp [hnul]), trim_newline]
      rw [pieces_line hline (by omega), cut_of_short (by omega), List.map_cons, htrim,
        List.singleton_append]
    · rw [pieces_long hline hlong, cut_of_long hlong, List.map_cons, List.cons_append,
        ih _ (by rw [List.length_drop]; omega) rfl fun h => hline (List.mem_of_mem_drop h)]

/-- The last line is too, but for what is left of it where that is nothing. -/
theorem read_last : ∀ {line : Bytes}, 10 ∉ line →
    cut line = (pieces line).map (fun piece => trim (cString piece)) ∨
      cut line = (pieces line).map (fun piece => trim (cString piece)) ++ [[]] := by
  intro line
  induction h : line.length using Nat.strongRecOn generalizing line with
  | _ length ih =>
    intro hline
    rcases Nat.lt_or_ge line.length 511 with hshort | hlong
    · rw [pieces_last hline (by omega), cut_of_short (by omega)]
      by_cases hempty : line = []
      · right
        rw [if_pos hempty, hempty]
        rfl
      · left
        rw [if_neg hempty, List.map_singleton]
    · have hpieces := @pieces_long line [] hline hlong
      rw [List.append_nil, List.append_nil] at hpieces
      rw [hpieces, cut_of_long hlong, List.map_cons, List.cons_append]
      exact (ih _ (by rw [List.length_drop]; omega) rfl fun h =>
        hline (List.mem_of_mem_drop h)).imp (congrArg _) (congrArg _)

theorem read_lines (file : Bytes) :
    (file.splitOn 10).flatMap cut = (pieces file).map (fun piece => trim (cString piece)) ∨
      (file.splitOn 10).flatMap cut =
        (pieces file).map (fun piece => trim (cString piece)) ++ [[]] := by
  induction file using @segments_induction _ _ (10 : UInt8) with
  | last line hline =>
    rw [splitOn_of_not_mem hline, List.flatMap_singleton]
    exact read_last hline
  | word line rest hline ih =>
    rw [List.splitOn_append_cons_self_of_not_mem hline, List.flatMap_cons, read_line hline,
      List.append_assoc]
    exact ih.imp (congrArg _) (congrArg _)

theorem values_concat_nil : ∀ (s : Section) (lines : List Bytes),
    values s (lines ++ [[]]) = values s lines
  | _, [] => rfl
  | s, line :: lines => by rw [List.cons_append, values, values, values_concat_nil]

theorem values_take_read (s : Section) (n : ℕ) (file : Bytes) :
    values s (((pieces file).map fun piece => trim (cString piece)).take n) =
      values s (((file.splitOn 10).flatMap cut).take n) := by
  rcases read_lines file with h | h
  · rw [h]
  · rw [h, List.take_append]
    cases n - ((pieces file).map fun piece => trim (cString piece)).length with
    | zero => rw [List.take_zero, List.append_nil]
    | succ => rw [List.take_succ_cons, List.take_nil, values_concat_nil]

theorem configuresIn_eq {wanted : Bytes} : ∀ (n : ℕ) (s : Section) (ps : List Bytes),
    configuresIn wanted s n ps =
      (values s ((ps.take n).map fun p => trim (cString p))).any (namesDevice · wanted)
  | 0, s, ps => by
    rw [List.take_zero]
    cases ps <;> rfl
  | n + 1, s, [] => rfl
  | n + 1, s, p :: ps => by
    rw [configuresIn, List.take_succ_cons, List.map_cons, values, List.any_append,
      configuresIn_eq n]
    cases (readSetting s (trim (cString p))).2 <;> simp

/-- Whether a value of the first 512 lines as they are cut names a device, its words split by quotes
and comments as a line's are. -/
def ConfiguredRead (file name : Bytes) : Prop :=
  ∃ value ∈ values {} (((file.splitOn 10).flatMap cut).take lineLimit), name ∈ uciWords value

theorem netifdConfigures_iff {file : Option Bytes} {name : Bytes} :
    netifdConfigures file name = true ↔ ∃ bytes ∈ file, ConfiguredRead bytes name := by
  unfold netifdConfigures ConfiguredRead
  cases file with
  | none => simp
  | some bytes => simp [configuresIn_eq, values_take_read, namesDevice]

/-! ## What is held and what is reported -/

def Stated (file wanted : Bytes) : Prop := ∃ line ∈ file.splitOn 10, trim line = wanted

def valueWords (value : Bytes) : List Bytes := (value.splitOnP isBlank).filter (· ≠ [])

/-- Whether a value of netifd's file names a device as one of its words. -/
def Configured (file name : Bytes) : Prop :=
  ∃ value ∈ values {} ((file.splitOn 10).map trim), name ∈ valueWords value

def evidence (runRoot : Bytes) (etcRoot : Option Bytes) (index : UInt32) (name : Bytes) :
    Daemon → Evidence
  | .networkManager =>
    { path := some (deviceFile runRoot "NetworkManager/devices" index)
      stated := (Stated · (asciis "managed=true"))
      read := (StatedRead · (asciis "managed=true")) }
  | .networkd =>
    { path := some (deviceFile runRoot "systemd/netif/links" index)
      stated := (Stated · (asciis "ADMIN_STATE=configured"))
      read := (StatedRead · (asciis "ADMIN_STATE=configured")) }
  | .netifd =>
    { path := etcRoot.map networkFile
      stated := (Configured · name)
      read := (ConfiguredRead · name) }

/-- Whether a daemon holds a device of the claims, by the lines of its file. -/
def Held (m : Machine) (runRoot : Bytes) (etcRoot : Option Bytes) (claims : List InterfaceClaim)
    (d : Daemon) (name : Bytes) : Prop :=
  ∃ c ∈ claims, c.name = some name ∧
    ∃ path ∈ (evidence runRoot etcRoot c.index name d).path, ∃ file ∈ m.read path,
      (evidence runRoot etcRoot c.index name d).stated file

/-- Whether the lines that are read say so, of a file the reader has room for the path of. -/
def HeldRead (m : Machine) (runRoot : Bytes) (etcRoot : Option Bytes)
    (claims : List InterfaceClaim) (d : Daemon) (name : Bytes) : Prop :=
  ∃ c ∈ claims, c.name = some name ∧
    ∃ path ∈ (evidence runRoot etcRoot c.index name d).path, path.length < 1024 ∧
      ∃ file ∈ m.read path, (evidence runRoot etcRoot c.index name d).read file

/-- The names reported as held by a daemon. -/
def reported (found : List Contender) (d : Daemon) : List Bytes :=
  ((found.find? fun c => c.name = d.title).map Contender.interfaces).getD []

theorem mem_namesOf {claims : List InterfaceClaim} {holds : InterfaceClaim → Bytes → Bool}
    {name : Bytes} :
    name ∈ namesOf claims holds ↔ ∃ c ∈ claims, c.name = some name ∧ holds c name = true := by
  unfold namesOf
  rw [List.mem_mergeSort, List.mem_filterMap]
  simp only [Option.filter_eq_some_iff]

theorem nameLe_trans {a b c : Bytes} (hab : nameLe a b = true) (hbc : nameLe b c = true) :
    nameLe a c = true := Std.TransCmp.isLE_trans hab hbc

theorem nameLe_total (a b : Bytes) : (nameLe a b || nameLe b a) = true := by
  unfold nameLe
  rw [@Std.OrientedCmp.eq_swap _ (compare : Bytes → Bytes → Ordering) _ b a]
  cases compare a b <;> rfl

theorem namesOf_sorted (claims : List InterfaceClaim) (holds : InterfaceClaim → Bytes → Bool) :
    (namesOf claims holds).Pairwise (nameLe · ·) :=
  @List.pairwise_mergeSort _ nameLe (fun _ _ _ => nameLe_trans) nameLe_total _

theorem namesOf_subperm (claims : List InterfaceClaim) (holds : InterfaceClaim → Bytes → Bool) :
    (namesOf claims holds).Subperm (claims.filterMap InterfaceClaim.name) := by
  refine (List.mergeSort_perm _ _).subperm.trans (List.Sublist.subperm ?_)
  induction claims with
  | nil => exact List.Sublist.slnil
  | cons c claims ih =>
    cases hname : c.name with
    | none => simpa [hname] using ih
    | some name =>
      rw [List.filterMap_cons_some hname]
      by_cases h : holds c name = true
      · rw [List.filterMap_cons_some (b := name) (by rw [hname, Option.filter_some, if_pos h])]
        exact ih.cons_cons name
      · rw [List.filterMap_cons_none (by rw [hname, Option.filter_some, if_neg h])]
        exact ih.cons name

section Found

variable {m : Machine} {runRoot procRoot : Bytes} {machines : Bool} {etcRoot : Option Bytes}
  {claims : List InterfaceClaim} {found : List Contender}

/-- A name is claimed by a daemon exactly where its state is read so. -/
theorem mem_claimedBy {d : Daemon} {name : Bytes} :
    name ∈ claimedBy m runRoot etcRoot claims d ↔ HeldRead m runRoot etcRoot claims d name := by
  unfold HeldRead
  cases d with
  | networkManager =>
    simp [claimedBy, claimsUnder, mem_namesOf, fileStates_iff, evidence]
  | networkd =>
    simp [claimedBy, claimsUnder, mem_namesOf, fileStates_iff, evidence]
  | netifd =>
    cases etcRoot with
    | none => simp [claimedBy, evidence]
    | some etc => simp [claimedBy, netifdClaims, mem_namesOf, netifdConfigures_iff, evidence]

theorem Daemon.title_inj : ∀ {d e : Daemon}, d.title = e.title → d = e := by
  intro d e h
  cases d <;> cases e <;> first | rfl | simp [Daemon.title] at h

theorem find?_title {f : Daemon → Option Contender} (hf : ∀ d, ∀ c ∈ f d, c.name = d.title)
    (d : Daemon) : ∀ {ds : List Daemon}, d ∈ ds →
      (ds.filterMap f).find? (fun c => c.name = d.title) = f d := by
  intro ds hd
  induction ds with
  | nil => cases hd
  | cons e ds ih =>
    by_cases hde : d = e
    · subst hde
      cases h : f d with
      | none =>
        rw [List.filterMap_cons_none h, List.find?_eq_none]
        intro c hc htitle
        obtain ⟨e, -, he⟩ := List.mem_filterMap.1 hc
        have : e = d := Daemon.title_inj ((hf e c he).symm.trans (by simpa using htitle))
        rw [this, h] at he
        cases he
      | some c =>
        rw [List.filterMap_cons_some h, List.find?_cons_of_pos]
        simpa using hf d c h
    · have hds : d ∈ ds := (List.mem_cons.1 hd).resolve_left hde
      cases h : f e with
      | none => rw [List.filterMap_cons_none h, ih hds]
      | some c =>
        rw [List.filterMap_cons_some h, List.find?_cons_of_neg, ih hds]
        simpa using fun htitle => hde (Daemon.title_inj ((hf e c h).symm.trans htitle)).symm

/-- Of a running daemon, what is reported is what is claimed. -/
theorem reported_eq (hours : runRootIsOurs m machines procRoot = true)
    (hfind : contendersFind m (some ⟨some runRoot, some procRoot, machines, etcRoot⟩) claims =
      .ok found) {d : Daemon} (hruns : running m procRoot d = true) :
    reported found d = claimedBy m runRoot etcRoot claims d := by
  unfold contendersFind at hfind
  dsimp only at hfind
  rw [hours] at hfind
  obtain rfl := Except.ok.inj hfind
  unfold reported
  rw [find?_title (d := d)]
  · by_cases hnames : claimedBy m runRoot etcRoot claims d = []
    · rw [if_neg fun h => h.2 hnames, hnames]
      rfl
    · rw [if_pos ⟨hruns, hnames⟩]
      rfl
  · intro d c hc
    split_ifs at hc
    · rw [← Option.some.inj hc]
    · cases hc
  · cases d <;> simp

theorem claimedBy_sorted (d : Daemon) :
    (claimedBy m runRoot etcRoot claims d).Pairwise (nameLe · ·) ∧
      (claimedBy m runRoot etcRoot claims d).Subperm (claims.filterMap InterfaceClaim.name) := by
  cases d with
  | networkManager => exact ⟨namesOf_sorted _ _, namesOf_subperm _ _⟩
  | networkd => exact ⟨namesOf_sorted _ _, namesOf_subperm _ _⟩
  | netifd =>
    cases etcRoot with
    | none => exact ⟨List.Pairwise.nil, List.nil_subperm⟩
    | some etc => exact ⟨namesOf_sorted _ _, namesOf_subperm _ _⟩

/-- The names are reported in order, each no more often than it is claimed. -/
theorem interfaces_sorted
    (hfind : contendersFind m (some ⟨some runRoot, some procRoot, machines, etcRoot⟩) claims =
      .ok found) {c : Contender} (hc : c ∈ found) :
    c.interfaces.Pairwise (nameLe · ·) ∧
      c.interfaces.Subperm (claims.filterMap InterfaceClaim.name) := by
  unfold contendersFind at hfind
  dsimp only at hfind
  split_ifs at hfind
  · obtain rfl := Except.ok.inj hfind
    cases hc
  · obtain rfl := Except.ok.inj hfind
    obtain ⟨d, -, hd⟩ := List.mem_filterMap.1 hc
    split_ifs at hd
    obtain rfl := Option.some.inj hd
    exact claimedBy_sorted d

end Found

/-! ## Plain files -/

theorem compared_of_plain {wanted : Bytes} (hwanted : wanted ≠ []) : ∀ {lines : List Bytes},
    (∀ line ∈ lines, line.length ≤ 510 ∧ 0 ∉ line) →
      (compared false lines).length ≤ lines.length ∧
        ((∃ line ∈ compared false lines, trim line = wanted) ↔ ∃ line ∈ lines, trim line = wanted)
  | [], _ => ⟨le_rfl, Iff.rfl⟩
  | [line], h => by
    obtain ⟨hshort, hnul⟩ := h line List.mem_cons_self
    rw [compared, cString_of_no_nul hnul]
    by_cases hempty : line = []
    · subst hempty
      simpa [trim] using hwanted.symm
    · rw [if_neg (by push Not; exact ⟨by decide, hempty, hshort⟩)]
      exact ⟨le_rfl, Iff.rfl⟩
  | line :: next :: lines, h => by
    obtain ⟨hshort, hnul⟩ := h line List.mem_cons_self
    have hrest : ∀ l ∈ next :: lines, l.length ≤ 510 ∧ 0 ∉ l := fun l hl =>
      h l (List.mem_cons_of_mem line hl)
    obtain ⟨hlength, hiff⟩ := compared_of_plain hwanted hrest
    rw [compared, if_neg (by push Not; exact ⟨by decide, hshort, hnul⟩), List.exists_mem_cons_iff]
    exact ⟨Nat.succ_le_succ hlength,
      (or_congr_right hiff).trans
        (List.exists_mem_cons_iff (fun l => trim l = wanted) line (next :: lines)).symm⟩

/-- A file both readers take as it stands : of 512 lines at most, short ones without a NUL. -/
def Plain (file : Bytes) : Prop :=
  (file.splitOn 10).length ≤ lineLimit ∧
    ∀ line ∈ file.splitOn 10, line.length ≤ 510 ∧ 0 ∉ line

instance {file : Bytes} : Decidable (Plain file) := inferInstanceAs (Decidable (_ ∧ _))

/-- No word of a value begins with a quote or as a comment. -/
def Bare (value : Bytes) : Prop :=
  ∀ c rest, c :: rest ∈ valueWords value → c ≠ ascii '#' ∧ c ≠ 39 ∧ c ≠ ascii '"'

theorem statedRead_of_plain {file wanted : Bytes} (h : Plain file) (hwanted : wanted ≠ []) :
    StatedRead file wanted ↔ Stated file wanted := by
  obtain ⟨hlength, hiff⟩ := compared_of_plain hwanted h.2
  rw [StatedRead, List.take_of_length_le (hlength.trans h.1), hiff, Stated]

section Words

variable {a b value : Bytes} {c : UInt8}

theorem valueWords_append (hc : isBlank c = true) :
    valueWords (a ++ c :: b) = valueWords a ++ valueWords b := by
  unfold valueWords
  rw [List.splitOnP_append_cons a b hc, List.filter_append]

theorem valueWords_word (hne : a ≠ []) (h : ∀ c ∈ a, isBlank c = false) : valueWords a = [a] := by
  unfold valueWords
  rw [List.splitOnP_eq_singleton h]
  simp [hne]

theorem valueWords_nil : valueWords [] = [] := rfl

theorem valueWords_dropWhile :
    ∀ value : Bytes, valueWords (value.dropWhile isBlank) = valueWords value
  | [] => rfl
  | c :: value => by
    cases hc : isBlank c with
    | true =>
      rw [List.dropWhile_cons_of_pos hc, valueWords_dropWhile value, ← List.nil_append (c :: value),
        valueWords_append hc, valueWords_nil, List.nil_append]
    | false => rw [List.dropWhile_cons_of_neg (by simp [hc])]

theorem valueWords_of_cons {rest : Bytes} (h : value.dropWhile isBlank = c :: rest) :
    valueWords value = (c :: rest).takeWhile (!isBlank ·) ::
      valueWords (((c :: rest).dropWhile (!isBlank ·)).drop 1) := by
  have hc : isBlank c = false := by
    have hhead := List.head?_dropWhile_not isBlank value
    rw [h] at hhead
    simpa using hhead
  have hword : valueWords ((c :: rest).takeWhile (!isBlank ·)) =
      [(c :: rest).takeWhile (!isBlank ·)] := by
    refine valueWords_word ?_ fun x hx => by simpa using List.mem_takeWhile_imp hx
    rw [List.takeWhile_cons_of_pos (by simp [hc])]
    exact List.cons_ne_nil _ _
  rw [← valueWords_dropWhile value, h]
  conv_lhs => rw [← List.takeWhile_append_dropWhile (p := (!isBlank ·)) (l := c :: rest)]
  cases htail : (c :: rest).dropWhile (!isBlank ·) with
  | nil => rw [List.append_nil, hword, List.drop_nil, valueWords_nil]
  | cons x tail =>
    have hx : isBlank x = true := by
      have hhead := List.head?_dropWhile_not (!isBlank ·) (c :: rest)
      rw [htail] at hhead
      simpa using hhead
    rw [valueWords_append hx, hword, List.singleton_append, List.drop_one, List.tail_cons]

theorem uciWordsIn_of_bare : ∀ {n : ℕ} {value : Bytes}, value.length ≤ n → Bare value →
    uciWordsIn n value = valueWords value
  | 0, value, hlen, _ => by
    rw [List.eq_nil_of_length_eq_zero (by omega : value.length = 0)]
    rfl
  | n + 1, value, hlen, hbare => by
    rw [uciWordsIn, uciWord]
    cases hdrop : value.dropWhile isBlank with
    | nil => rw [← valueWords_dropWhile, hdrop, valueWords_nil]
    | cons c rest =>
      have hwords := valueWords_of_cons hdrop
      have hc : isBlank c = false := by
        have hhead := List.head?_dropWhile_not isBlank value
        rw [hdrop] at hhead
        simpa using hhead
      have hfirst : c :: rest.takeWhile (!isBlank ·) ∈ valueWords value := by
        rw [hwords, List.takeWhile_cons_of_pos (by simp [hc])]
        exact List.mem_cons_self
      obtain ⟨hcomment, hsingle, hdouble⟩ := hbare c _ hfirst
      have hshort : (((c :: rest).dropWhile (!isBlank ·)).drop 1).length ≤ n := by
        have hsuffix := (List.dropWhile_suffix (p := isBlank) (l := value)).length_le
        have htail := (List.dropWhile_suffix (p := (!isBlank ·)) (l := c :: rest)).length_le
        rw [hdrop] at hsuffix
        rw [List.length_drop]
        omega
      rw [hwords]
      simp only [if_neg hcomment, if_neg (not_or.2 ⟨hsingle, hdouble⟩)]
      rw [uciWordsIn_of_bare hshort fun c' rest' h => hbare c' rest' ?_]
      rw [hwords]
      exact List.mem_cons_of_mem _ h

end Words

theorem configuredRead_of_plain {file name : Bytes} (h : Plain file)
    (hbare : ∀ value ∈ values {} ((file.splitOn 10).map trim), Bare value) :
    ConfiguredRead file name ↔ Configured file name := by
  have hcut : (file.splitOn 10).flatMap cut = (file.splitOn 10).map trim := by
    rw [List.map_eq_flatMap]
    refine List.flatMap_congr fun line hline => ?_
    obtain ⟨hshort, hnul⟩ := h.2 line hline
    rw [cut_of_short hshort, cString_of_no_nul hnul]
  rw [ConfiguredRead, Configured, hcut, List.take_of_length_le (by simpa using h.1)]
  refine exists_congr fun value => and_congr_right fun hvalue => ?_
  rw [uciWords, uciWordsIn_of_bare le_rfl (hbare value hvalue)]

/-- What a daemon's file says and what is read of it agree, where the file is plain, and netifd's
values are bare. -/
theorem held_iff_of_plain {m : Machine} {runRoot : Bytes} {etcRoot : Option Bytes}
    {claims : List InterfaceClaim} {d : Daemon} {name : Bytes}
    (hplain : ∀ c ∈ claims, ∀ path ∈ (evidence runRoot etcRoot c.index name d).path,
      path.length < 1024 ∧ ∀ file ∈ m.read path, Plain file ∧
        (d = .netifd → ∀ value ∈ values {} ((file.splitOn 10).map trim), Bare value)) :
    Held m runRoot etcRoot claims d name ↔ HeldRead m runRoot etcRoot claims d name := by
  refine exists_congr fun c => and_congr_right fun hc => and_congr_right fun _ =>
    exists_congr fun path => and_congr_right fun hpath => ?_
  obtain ⟨hroom, hfile⟩ := hplain c hc path hpath
  rw [and_iff_right hroom]
  refine exists_congr fun file => and_congr_right fun hread => ?_
  obtain ⟨hfilePlain, hbare⟩ := hfile file hread
  cases d with
  | networkManager => exact (statedRead_of_plain hfilePlain (by decide)).symm
  | networkd => exact (statedRead_of_plain hfilePlain (by decide)).symm
  | netifd => exact (configuredRead_of_plain hfilePlain (hbare rfl)).symm

/-- **A device is reported under the daemon that holds it, and only there, exactly where the file is
read as its lines stand.** In netcfgd's namespace, with daemons running : for every claims and every
files, the devices reported under each are the ones its file says it holds, and they are sorted and
each of a claim of its own, if and only if no device is held by a line or a value the readers pass
over or misread, or is read to be held where no line says so. -/
theorem held_iff_readable {m : Machine} {runRoot procRoot : Bytes} {machines : Bool}
    {etcRoot : Option Bytes} {claims : List InterfaceClaim} {found : List Contender}
    (hours : runRootIsOurs m machines procRoot = true)
    (hfind : contendersFind m (some ⟨some runRoot, some procRoot, machines, etcRoot⟩) claims =
      .ok found) :
    ((∀ d, running m procRoot d = true → ∀ name,
        name ∈ reported found d ↔ Held m runRoot etcRoot claims d name) ∧
      ∀ c ∈ found, c.interfaces.Pairwise (nameLe · ·) ∧
        c.interfaces.Subperm (claims.filterMap InterfaceClaim.name)) ↔
    ∀ d, running m procRoot d = true → ∀ name,
      Held m runRoot etcRoot claims d name ↔ HeldRead m runRoot etcRoot claims d name := by
  constructor
  · rintro ⟨hheld, -⟩ d hruns name
    rw [← hheld d hruns name, reported_eq hours hfind hruns, mem_claimedBy]
  · intro hread
    refine ⟨fun d hruns name => ?_, fun c hc => interfaces_sorted hfind hc⟩
    rw [reported_eq hours hfind hruns, mem_claimedBy, hread d hruns name]

/-- The configuration of a router, with so many lines of comments before the interface. -/
def routerNetwork (comments : ℕ) : Bytes :=
  (List.replicate comments (asciis "#\n")).flatten ++
    asciis "config interface 'lan'\n\toption device 'eth0'\n"

/-- A router with that configuration and a `/proc` that cannot be read. -/
def router (comments : ℕ) : Machine where
  read path := if path = networkFile (asciis "/etc") then some (routerNetwork comments) else none
  readlink _ := none
  readdir _ := none

def routerWhere : Where :=
  ⟨some (asciis "/run"), some (asciis "/proc"), false, some (asciis "/etc")⟩

/-- A router with few comments finds netifd's interface, and nothing else is held. -/
theorem router_held_iff :
    ∃ found, contendersFind (router 1) (some routerWhere) [⟨some (asciis "eth0"), 2⟩] = .ok found ∧
      reported found .netifd = [asciis "eth0"] ∧
      ∀ d, running (router 1) (asciis "/proc") d = true → ∀ name,
        name ∈ reported found d ↔ Held (router 1) (asciis "/run") (some (asciis "/etc"))
          [⟨some (asciis "eth0"), 2⟩] d name := by
  refine ⟨_, rfl, by decide +kernel, ?_⟩
  refine ((@held_iff_readable _ _ _ false _ _ _ rfl rfl).2 fun d _ name => ?_).1
  refine held_iff_of_plain fun c hc path hpath => ?_
  obtain rfl := List.mem_singleton.1 hc
  cases d with
  | networkManager =>
    obtain rfl := Option.some.inj hpath
    exact ⟨by decide +kernel, fun file hfile => absurd hfile (by decide +kernel +revert)⟩
  | networkd =>
    obtain rfl := Option.some.inj hpath
    exact ⟨by decide +kernel, fun file hfile => absurd hfile (by decide +kernel +revert)⟩
  | netifd =>
    obtain rfl := Option.some.inj hpath
    refine ⟨by decide +kernel, fun file hfile => ?_⟩
    obtain rfl : routerNetwork 1 = file := Option.some.inj hfile
    refine ⟨by decide +kernel, fun _ value hvalue c rest hword => ?_⟩
    have hvalues : values {} (((routerNetwork 1).splitOn 10).map trim) = [asciis "eth0"] := by
      decide +kernel
    rw [hvalues, List.mem_singleton] at hvalue
    subst hvalue
    have hwords : valueWords (asciis "eth0") = [ascii 'e' :: asciis "th0"] := by decide +kernel
    rw [hwords, List.mem_singleton] at hword
    obtain rfl : c = ascii 'e' := (List.cons.inj hword).1
    decide

/-- After 512 lines of comments, the interface is not read : netifd holds `eth0`, and nothing is
reported. -/
theorem held_after_comments :
    Held (router 512) (asciis "/run") (some (asciis "/etc")) [⟨some (asciis "eth0"), 2⟩] .netifd
        (asciis "eth0") ∧
      contendersFind (router 512) (some routerWhere) [⟨some (asciis "eth0"), 2⟩] = .ok [] := by
  constructor
  · refine ⟨_, List.mem_singleton_self _, rfl, networkFile (asciis "/etc"), rfl,
      routerNetwork 512, ?_, asciis "eth0", ?_, ?_⟩
    · simp [router]
    · decide +kernel
    · decide +kernel
  · have hnone : ∀ d, claimedBy (router 512) (asciis "/run") (some (asciis "/etc"))
        [⟨some (asciis "eth0"), 2⟩] d = [] := by
      intro d
      cases d <;> decide +kernel
    unfold contendersFind routerWhere
    simp [hnone, runRootIsOurs]

end Netcfgd.Contention
