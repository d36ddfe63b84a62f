import Mathlib.Data.List.DropRight
import Netcfgd.Fallible
import Netcfgd.JsonWrite
import Netcfgd.ShellQuoting

/-!
# The scripts a DHCP client runs

`src/backend/dhcp/script.c` writes the script udhcpc runs on a lease and the hook odhcp6c runs on
a prefix, and `write_script` and `write_pd_hook` of `dhcp.c` compose the paths that go into them. A
path is a run directory and the name of an interface, and stands in single quotes.

The texts are templates (`udhcpcTemplate`, `pdTemplate`), and each place of them stands in single
quotes or in a comment (`udhcpc_part`, `pd_part`). `ncfg_dhcp_udhcpc_script` refuses a path with a
quote ; `ncfg_dhcp_pd_script` does not, and its text is read as its template exactly where the path
has none (`scripts_run_themselves_iff`).
-/

namespace Netcfgd.DhcpScript

open Netcfgd.Json (ascii asciis asciis_ofList)
open Netcfgd.Shell (Symbol Enclosed placed places fill fillToken tokens read read_fill
  tokens_ne_of_quote enclosed_append placed_append after_append length_fill_le)

abbrev Bytes := List UInt8

/-- `NCFG_DHCP_PATH_MAX`. -/
def pathMax : ℕ := 512

/-- `SCRIPT_MAX`. -/
def scriptMax : ℕ := 64 * 1024

/-! ## Names -/

/-- `name_whitespace`. -/
def nameWhitespace (c : UInt8) : Bool := c = 32 || c = 9 || c = 13 || c = 10 || c = 11 || c = 12

/-- `ncfg_usable_name`, of the bytes of a name : what is wrong with it. -/
def usableName (name : Bytes) : Option String :=
  if name = [] then some "an interface name cannot be empty"
  else if 15 < name.length then some "an interface name is at most 15 characters"
  else if name = asciis "." ∨ name = asciis ".." then
    some "the kernel keeps \x60.\x60 and \x60..\x60 for directories"
  else match name.find? fun c => c = ascii '/' || c = ascii ':' || nameWhitespace c with
    | none => none
    | some c =>
      if c = ascii '/' then some "an interface name cannot contain \x60/\x60"
      else if c = ascii ':' then some "an interface name cannot contain \x60:\x60"
      else some "an interface name cannot contain whitespace"

/-- What a script has filled in. -/
inductive Place
  | iface
  | state
  | report
  | target
  | staged
deriving DecidableEq

/-- What stands in the places of a script. -/
structure Values where
  iface : Bytes := []
  state : Bytes := []
  report : Bytes := []
  target : Bytes := []
  staged : Bytes := []

/-- Where the places of a part of a script are, which starts and ends at a new line. -/
structure Part (template : List (Symbol Place)) (quoted commented : List Place) : Prop where
  enclosed : Enclosed {} template = true
  quoted : placed false {} template = quoted
  commented : placed true {} template = commented
  after : Shell.Control.after {} template = {}

/-- A usable name has no newline. -/
theorem no_newline_of_usableName {name : Bytes} (h : usableName name = none) : 10 ∉ name := by
  intro hmem
  unfold usableName at h
  split_ifs at h
  cases hfind : name.find? fun c => c = ascii '/' || c = ascii ':' || nameWhitespace c with
  | none => exact absurd (List.find?_eq_none.1 hfind 10 hmem) (by decide)
  | some c =>
    rw [hfind] at h
    dsimp only at h
    split_ifs at h

/-! ## Paths -/

/-- `ncfg_backend_path`, into a buffer of `NCFG_DHCP_PATH_MAX` bytes. -/
def backendPath (dir : Bytes) (middle : Option Bytes) (leaf suffix : Bytes) :
    Except Bytes Bytes :=
  let path := dir ++ (middle.map fun m => asciis "/" ++ m).getD [] ++ asciis "/" ++ leaf ++ suffix
  if pathMax ≤ path.length then
    .error (asciis "the path under " ++ dir ++ asciis " is longer than this build will build")
  else .ok path

/-- `ncfg_backend_join`. -/
def backendJoin (dir leaf : Bytes) : Except Bytes Bytes := backendPath dir none leaf []

/-- `ncfg_state_report_path`. -/
def stateReportPath (run iface : Bytes) : Except Bytes Bytes :=
  if run = [] ∨ iface = [] then
    .error (asciis "a report path needs a run directory and an interface to name")
  else if ascii '/' ∈ iface ∨ iface = asciis "." ∨ iface = asciis ".." then
    .error (asciis "\x60" ++ iface ++
      asciis "\x60 cannot name a report: it is not one path component")
  else
    let path := run ++ asciis "/reported/" ++ iface
    if pathMax ≤ path.length then
      .error (asciis "the report path for " ++ iface ++ asciis " does not fit in 511 bytes")
    else .ok path

/-- `staged_path`. -/
def stagedPath (target : Bytes) : Option Bytes :=
  let staged := target.rdropWhile (· ≠ ascii '/') ++ asciis "." ++
    target.rtakeWhile (· ≠ ascii '/') ++ asciis ".tmp"
  if staged.length < pathMax then some staged else none

/-! ## The texts -/

/-- What stands in a place. -/
def Values.at (v : Values) : Place → Bytes
  | .iface => v.iface
  | .state => v.state
  | .report => v.report
  | .target => v.target
  | .staged => v.staged

/-- A stretch of a script with no place in it. -/
def fixed (text : String) : List (Symbol Place) := (asciis text).map .byte

/-- The text of `ncfg_dhcp_pd_script`, line by line. -/
def pdTemplate : List (Symbol Place) :=
  [fixed "#!/bin/sh\n",
    fixed "# Written by netcfgd. Reports the prefixes delegated on " ++ .value .iface ::
      fixed ".\n",
    fixed "# One per line; an empty file means the lease is gone.\n",
    fixed "#\n",
    fixed "# Run by odhcp6c. dhcpcd cannot report a delegated prefix to a script\n",
    fixed "# at all -- see doc/decision/0050 -- so netcfgd refuses that pairing\n",
    fixed "# rather than leaving a variable here that would never be set.\n",
    fixed "set -u\n",
    fixed "out='" ++ .value .target :: fixed "'\n",
    fixed ": > '" ++ .value .staged :: fixed "'\n",
    fixed "for p in $\x7bPREFIXES:-\x7d; do\n",
    fixed "\tprintf '%s\\n' \"$\x7bp%%,*\x7d\" >> '" ++ .value .staged :: fixed "'\n",
    fixed "done\n",
    fixed "mv '" ++ .value .staged :: fixed "' \"$out\"\n"].flatten

/-- The head of the text of `ncfg_dhcp_udhcpc_script`, with the paths it works on. -/
def udhcpcHead : List (Symbol Place) :=
  [fixed "#!/bin/sh\n",
    fixed "# Written by netcfgd for udhcpc on " ++ .value .iface ::
      fixed ". Regenerated on every apply.\n",
    fixed "#\n",
    fixed "# udhcpc has no configuration step of its own: without a script it obtains a\n",
    fixed "# lease and does nothing with it. This installs the address and the default\n",
    fixed "# route and touches nothing else -- not the MTU, which the config owns, and\n",
    fixed "# not resolv.conf, which netcfgd's DNS backend owns.\n",
    fixed "set -u\n",
    fixed "state='" ++ .value .state :: fixed "'\n",
    fixed "report='" ++ .value .report :: fixed "'\n",
    fixed "iface=$\x7binterface:?udhcpc did not say which interface\x7d\n",
    fixed "\n"].flatten

/-- What takes back what the script added last time. -/
def udhcpcWithdraw : List (Symbol Place) :=
  [fixed "# What this script added last time, so \x60deconfig\x60 removes exactly that and\n",
    fixed "# leaves any address netcfgd itself put on the interface alone.\n",
    fixed "held=\n",
    fixed "[ -r \"$state\" ] && held=$(cat \"$state\")\n",
    fixed "\n",
    fixed "withdraw() \x7b\n",
    fixed "\t[ -n \"$held\" ] || return 0\n",
    fixed "\tip -4 route del default dev \"$iface\" 2>/dev/null || true\n",
    fixed "\tip -4 addr del \"$held\" dev \"$iface\" 2>/dev/null || true\n",
    fixed "\trm -f \"$state\"\n",
    fixed "\trm -f \"$report\"\n",
    fixed "\x7d\n",
    fixed "\n"].flatten

/-- What writes the report netcfgd reads. -/
def udhcpcReport : List (Symbol Place) :=
  [fixed "# What the server offered, for netcfgd to read: the nameservers, and the\n",
    fixed "# domain as a comment. doc/interface-report.md is the format and decision\n",
    fixed "# 0049 is why a domain is a comment -- a server may name resolvers, and\n",
    fixed "# which names use them is the operator's to write down.\n",
    fixed "#\n",
    fixed "# Written to a temporary and renamed, because netcfgd may read at any moment\n",
    fixed "# and a half-written file would be read as a shorter list rather than as an\n",
    fixed "# error. Rewritten rather than appended, so a renewal that dropped a server\n",
    fixed "# does not leave it behind.\n",
    fixed "report() \x7b\n",
    fixed "\t\x7b\n",
    fixed "\t\tprintf '# %s, from a DHCPv4 lease. Written by netcfgd.\\n' \"$iface\"\n",
    fixed "\t\tfor server in $\x7bdns:-\x7d; do\n",
    fixed "\t\t\tprintf 'dns=%s\\n' \"$server\"\n",
    fixed "\t\tdone\n",
    fixed "\t\t# The search list, which is option 119 where the server sent one and\n",
    fixed "\t\t# option 15 otherwise -- the same precedence dhcpcd's own hook uses.\n",
    fixed "\t\t# A suffix, never a routing domain: 0067 says which is which.\n",
    fixed "\t\tfor suffix in $\x7bsearch:-$\x7bdomain:-\x7d\x7d; do\n",
    fixed "\t\t\tprintf 'search=%s\\n' \"$suffix\"\n",
    fixed "\t\tdone\n",
    fixed "\t\x7d > '" ++ .value .staged :: fixed "'\n",
    fixed "\tmv '" ++ .value .staged :: fixed "' \"$report\"\n",
    fixed "\x7d\n",
    fixed "\n"].flatten

/-- What is done on each of the words udhcpc calls the script with. -/
def udhcpcCase : List (Symbol Place) :=
  [fixed "case \"$\x7b1:-\x7d\" in\n",
    fixed "bound|renew)\n",
    fixed "\t: \"$\x7bip:?udhcpc reported no address\x7d\"\n",
    fixed "\t# A prefix length, which is \x60$mask\x60. \x60$subnet\x60 carries the same thing in\n",
    fixed "\t# dotted form and \x60ip\x60 will not take it, so an old client that sets only\n",
    fixed "\t# \x60subnet\x60 is refused by name rather than guessed at.\n",
    fixed "\t: \"$\x7bmask:?this udhcpc does not set \\$mask; netcfgd needs a prefix length\x7d\"\n",
    fixed "\tnew=\"$ip/$mask\"\n",
    fixed "\t[ \"$new\" = \"$held\" ] || withdraw\n",
    fixed "\tip -4 addr replace \"$new\" dev \"$iface\"\n",
    fixed "\tprintf '%s' \"$new\" > \"$state\"\n",
    fixed "\tif [ -n \"$\x7brouter:-\x7d\" ]; then\n",
    fixed "\t\tfor gateway in $router; do\n",
    fixed "\t\t\tip -4 route replace default via \"$gateway\" dev \"$iface\" && break\n",
    fixed "\t\tdone\n",
    fixed "\tfi\n",
    fixed "\treport\n",
    fixed "\t;;\n",
    fixed "deconfig|nak|leasefail)\n",
    fixed "\t# The lease is gone or was never obtained. \x60deconfig\x60 also arrives once\n",
    fixed "\t# before the first lease, when there is nothing recorded and this is a\n",
    fixed "\t# no-op.\n",
    fixed "\twithdraw\n",
    fixed "\t;;\n",
    fixed "esac\n",
    fixed "exit 0\n"].flatten

/-- The text of `ncfg_dhcp_udhcpc_script`. -/
def udhcpcTemplate : List (Symbol Place) :=
  udhcpcHead ++ (udhcpcWithdraw ++ (udhcpcReport ++ udhcpcCase))

theorem fixed_ofList (text : List Char) :
    fixed (String.ofList text) = (text.map ascii).map .byte := by
  rw [fixed, asciis_ofList]

/-- The places of a prefix hook, quoted and in a comment. -/
theorem pd_part : Part pdTemplate [.target, .staged, .staged, .staged] [.iface] := by
  unfold pdTemplate
  repeat rw [fixed_ofList]
  constructor <;> decide +kernel

theorem Part.append {t u : List (Symbol Place)} {q q' c c' : List Place} (h : Part t q c)
    (h' : Part u q' c') : Part (t ++ u) (q ++ q') (c ++ c') where
  enclosed := by rw [enclosed_append, h.enclosed, h.after, h'.enclosed]; rfl
  quoted := by rw [placed_append, h.quoted, h.after, h'.quoted]
  commented := by rw [placed_append, h.commented, h.after, h'.commented]
  after := by rw [after_append, h.after, h'.after]

/-- The places of a udhcpc script, quoted and in a comment. -/
theorem udhcpc_part :
    Part udhcpcTemplate [.state, .report, .staged, .staged] [.iface] := by
  have hhead : Part udhcpcHead [.state, .report] [.iface] := by
    unfold udhcpcHead
    repeat rw [fixed_ofList]
    constructor <;> decide +kernel
  have hwithdraw : Part udhcpcWithdraw [] [] := by
    unfold udhcpcWithdraw
    repeat rw [fixed_ofList]
    constructor <;> decide +kernel
  have hreport : Part udhcpcReport [.staged, .staged] [] := by
    unfold udhcpcReport
    repeat rw [fixed_ofList]
    constructor <;> decide +kernel
  have hcase : Part udhcpcCase [] [] := by
    unfold udhcpcCase
    repeat rw [fixed_ofList]
    constructor <;> decide +kernel
  exact hhead.append (hwithdraw.append (hreport.append hcase))

/-- `ncfg_dhcp_pd_script`. -/
def pdScript (iface target : Option Bytes) : Except Bytes Bytes :=
  match iface, target with
  | some iface, some target =>
    match stagedPath target with
    | none =>
      .error (asciis "the staging name beside " ++ target ++
        asciis " is longer than this build will build")
    | some staged =>
      let text := fill ({ iface, target, staged } : Values).at pdTemplate
      if scriptMax < text.length then
        .error (asciis "the prefix hook for " ++ iface ++
          asciis " is larger than this build will render")
      else .ok text
  | _, _ =>
    .error (asciis "a prefix hook was rendered with no interface or nowhere to report to")

/-- `ncfg_dhcp_udhcpc_script`. -/
def udhcpcScript (iface state report : Option Bytes) : Except Bytes Bytes :=
  match iface, state, report with
  | some iface, some state, some report =>
    match stagedPath report with
    | none =>
      .error (asciis "the staging name beside " ++ report ++
        asciis " is longer than this build will build")
    | some staged =>
      if 39 ∈ iface ∨ 39 ∈ state ∨ 39 ∈ report then
        .error (asciis "the udhcpc script for " ++ iface ++
          asciis " would carry a single quote, which would end the quoting around a path and run what follows it")
      else
        let text := fill ({ iface, state, report, staged } : Values).at udhcpcTemplate
        if scriptMax < text.length then
          .error (asciis "the udhcpc script for " ++ iface ++
            asciis " is larger than this build will render")
        else .ok text
  | _, _, _ =>
    .error (asciis "a udhcpc script was rendered with no interface, no state file or no report")

/-- `write_script`, where its directories can be made : the file and its text. -/
def writeScript (run iface : Bytes) : Except Bytes (Bytes × Bytes) := do
  let _ ← backendJoin run (asciis "udhcpc")
  let script ← backendPath run (some (asciis "udhcpc")) iface (asciis ".script")
  let state ← backendPath run (some (asciis "udhcpc")) iface (asciis ".address")
  let report ← stateReportPath run iface
  let _ ← backendJoin run (asciis "reported")
  let text ← udhcpcScript (some iface) (some state) (some report)
  return (script, text)

/-- `write_pd_hook`, where its directories can be made : the file and its text. -/
def writePdHook (run iface : Bytes) : Except Bytes (Bytes × Bytes) := do
  let prefixes ← backendJoin run (asciis "prefixes")
  let target ← backendJoin prefixes iface
  let hooks ← backendJoin run (asciis "hooks")
  let out := hooks ++ asciis "/pd-" ++ iface
  if pathMax ≤ out.length then
    .error (asciis "the prefix hook's path for " ++ iface ++
      asciis " is longer than this build composes one in")
  else
    let text ← pdScript (some iface) (some target)
    return (out, text)

/-! ## What the shell reads -/

/-- What a udhcpc script is filled with. -/
def udhcpcValues (run iface : Bytes) : Values where
  iface := iface
  state := run ++ asciis "/udhcpc/" ++ iface ++ asciis ".address"
  report := run ++ asciis "/reported/" ++ iface
  staged := run ++ asciis "/reported/." ++ iface ++ asciis ".tmp"

/-- What a prefix hook is filled with. -/
def pdValues (run iface : Bytes) : Values where
  iface := iface
  target := run ++ asciis "/prefixes/" ++ iface
  staged := run ++ asciis "/prefixes/." ++ iface ++ asciis ".tmp"

section Reading

variable {run iface path text : Bytes} {v : Values}

/-- A usable name has no slash. -/
theorem no_slash_of_usableName (h : usableName iface = none) : ascii '/' ∉ iface := by
  intro hmem
  unfold usableName at h
  split_ifs at h
  cases hfind : iface.find? fun c => c = ascii '/' || c = ascii ':' || nameWhitespace c with
  | none => exact absurd (List.find?_eq_none.1 hfind _ hmem) (by decide)
  | some c =>
    rw [hfind] at h
    dsimp only at h
    split_ifs at h

theorem backendPath_ok {dir leaf suffix : Bytes} {middle : Option Bytes}
    (h : backendPath dir middle leaf suffix = .ok path) :
    path = dir ++ (middle.map fun m => asciis "/" ++ m).getD [] ++ asciis "/" ++ leaf ++
      suffix := by
  unfold backendPath at h
  dsimp only at h
  split_ifs at h
  exact (Except.ok.inj h).symm

theorem stagedPath_join {dir name : Bytes} (hname : ascii '/' ∉ name) :
    stagedPath (dir ++ asciis "/" ++ name) =
      if (dir ++ asciis "/." ++ name ++ asciis ".tmp").length < pathMax then
        some (dir ++ asciis "/." ++ name ++ asciis ".tmp") else none := by
  have hslash : ∀ c ∈ name.reverse, decide (c ≠ ascii '/') = true := fun c hc => by
    simpa using fun h : c = ascii '/' => hname (h ▸ List.mem_reverse.1 hc)
  have hreverse : (dir ++ asciis "/" ++ name).reverse =
      name.reverse ++ ascii '/' :: dir.reverse := by
    rw [List.reverse_append, List.reverse_append]
    rfl
  have hdrop : (dir ++ asciis "/" ++ name).rdropWhile (· ≠ ascii '/') = dir ++ asciis "/" := by
    rw [List.rdropWhile, hreverse, List.dropWhile_append_of_pos hslash,
      List.dropWhile_cons_of_neg (by decide), List.reverse_cons, List.reverse_reverse]
    rfl
  have htake : (dir ++ asciis "/" ++ name).rtakeWhile (· ≠ ascii '/') = name := by
    rw [List.rtakeWhile, hreverse, List.takeWhile_append_of_pos hslash,
      List.takeWhile_cons_of_neg (by decide), List.append_nil, List.reverse_reverse]
  have hdot : dir ++ asciis "/" ++ asciis "." = dir ++ asciis "/." := by
    rw [List.append_assoc]
    rfl
  unfold stagedPath
  rw [hdrop, htake, hdot]

/-- A filled script has the words of its template, where its values end no quote and no comment. -/
theorem reads_of_part {template : List (Symbol Place)} {quoted : List Place}
    (h : Part template quoted [.iface]) (hquoted : ∀ k ∈ quoted, 39 ∉ v.at k)
    (hname : 10 ∉ v.iface) :
    tokens (fill v.at template) = (read {} [] template).map (fillToken v.at) := by
  refine @read_fill _ v.at template {} [] h.enclosed ?_ ?_
  · rw [h.quoted]
    exact hquoted
  · rw [h.commented]
    exact List.forall_mem_singleton.2 hname

/-- A udhcpc script that is written has no quote in it, and is its template filled. -/
theorem of_writeScript (hslash : ascii '/' ∉ iface)
    (h : writeScript run iface = .ok (path, text)) :
    39 ∉ run ∧ 39 ∉ iface ∧ text = fill (udhcpcValues run iface).at udhcpcTemplate := by
  unfold writeScript at h
  obtain ⟨_, -, h⟩ := bind_eq_ok.1 h
  obtain ⟨script, -, h⟩ := bind_eq_ok.1 h
  obtain ⟨state, hstate, h⟩ := bind_eq_ok.1 h
  obtain ⟨report, hreport, h⟩ := bind_eq_ok.1 h
  obtain ⟨_, -, h⟩ := bind_eq_ok.1 h
  obtain ⟨text', htext, h⟩ := bind_eq_ok.1 h
  obtain rfl : text' = text := (Prod.mk.inj (Except.ok.inj h)).2
  have hstate' : state = (udhcpcValues run iface).state := by
    rw [backendPath_ok hstate]
    simp only [udhcpcValues, Option.map_some, Option.getD_some, List.append_assoc]
    repeat rw [asciis_ofList]
    rfl
  have hreport' : report = run ++ asciis "/reported" ++ asciis "/" ++ iface := by
    unfold stateReportPath at hreport
    dsimp only at hreport
    split_ifs at hreport
    rw [← Except.ok.inj hreport]
    simp only [List.append_assoc]
    repeat rw [asciis_ofList]
    rfl
  unfold udhcpcScript at htext
  dsimp only at htext
  rw [hreport', stagedPath_join hslash] at htext
  by_cases hfits : (run ++ asciis "/reported" ++ asciis "/." ++ iface ++ asciis ".tmp").length <
      pathMax
  · rw [if_pos hfits] at htext
    dsimp only at htext
    split_ifs at htext with hquote
    push Not at hquote
    obtain ⟨hiface, hstate39, -⟩ := hquote
    refine ⟨fun h => hstate39 ?_, hiface, ?_⟩
    · rw [hstate']
      simp [udhcpcValues, h]
    · rw [← Except.ok.inj htext, hstate']
      congr 2
      unfold udhcpcValues
      simp only [List.append_assoc]
      repeat rw [asciis_ofList]
      rfl
  · rw [if_neg hfits] at htext
    cases htext

/-- Whether the paths of a prefix hook fit, the longest of them the staging path. -/
def pdFits (run iface : Bytes) : Prop := run.length + iface.length + 15 < pathMax

theorem pd_size : pdTemplate.length ≤ 1024 ∧
    places pdTemplate = [.iface, .target, .staged, .staged, .staged] := by
  unfold pdTemplate
  repeat rw [fixed_ofList]
  constructor <;> decide +kernel

theorem length_pd_le (hfits : pdFits run iface) :
    (fill (pdValues run iface).at pdTemplate).length ≤ scriptMax := by
  refine (length_fill_le _ _).trans ?_
  have hprefixes : (asciis "/prefixes/").length = 10 := by decide
  have hdot : (asciis "/prefixes/.").length = 11 := by decide
  have htmp : (asciis ".tmp").length = 4 := by decide
  have hsize := pd_size.1
  rw [pd_size.2]
  unfold pdFits pathMax at hfits
  unfold scriptMax
  simp only [pdValues, Values.at, List.map_cons, List.map_nil, List.sum_cons, List.sum_nil,
    List.length_append, hprefixes, hdot, htmp]
  omega

theorem pd_staged (hslash : ascii '/' ∉ iface) :
    stagedPath (run ++ asciis "/prefixes" ++ asciis "/" ++ iface) =
      if run.length + iface.length + 15 < pathMax then some (pdValues run iface).staged
      else none := by
  have hdot : run ++ asciis "/prefixes" ++ asciis "/." ++ iface ++ asciis ".tmp" =
      (pdValues run iface).staged := by
    unfold pdValues
    simp only [List.append_assoc]
    repeat rw [asciis_ofList]
    rfl
  have hlength : (pdValues run iface).staged.length = run.length + iface.length + 15 := by
    have hprefixes : (asciis "/prefixes/.").length = 11 := by decide
    have htmp : (asciis ".tmp").length = 4 := by decide
    simp only [pdValues, List.length_append, hprefixes, htmp]
    omega
  rw [stagedPath_join hslash, hdot, hlength]

/-- A prefix hook that is written is its template filled. -/
theorem of_writePdHook (hslash : ascii '/' ∉ iface) (h : writePdHook run iface = .ok (path, text)) :
    pdFits run iface ∧ text = fill (pdValues run iface).at pdTemplate := by
  unfold writePdHook at h
  obtain ⟨prefixes, hprefixes, h⟩ := bind_eq_ok.1 h
  obtain ⟨target, htarget, h⟩ := bind_eq_ok.1 h
  obtain ⟨hooks, -, h⟩ := bind_eq_ok.1 h
  dsimp only at h
  split_ifs at h
  obtain ⟨text', htext, h⟩ := bind_eq_ok.1 h
  obtain rfl : text' = text := (Prod.mk.inj (Except.ok.inj h)).2
  have htarget' : target = run ++ asciis "/prefixes" ++ asciis "/" ++ iface := by
    rw [backendPath_ok htarget, backendPath_ok hprefixes]
    simp only [Option.map_none, Option.getD_none, List.append_nil, List.append_assoc]
    repeat rw [asciis_ofList]
    rfl
  unfold pdScript at htext
  dsimp only at htext
  rw [htarget', pd_staged hslash] at htext
  by_cases hfits : run.length + iface.length + 15 < pathMax
  · rw [if_pos hfits] at htext
    dsimp only at htext
    split_ifs at htext
    refine ⟨hfits, ?_⟩
    rw [← Except.ok.inj htext]
    congr 2
    unfold pdValues
    simp only [List.append_assoc]
    repeat rw [asciis_ofList]
    rfl
  · rw [if_neg hfits] at htext
    cases htext

theorem backendPath_eq {dir leaf suffix : Bytes} {middle : Option Bytes}
    (h : (dir ++ (middle.map fun m => asciis "/" ++ m).getD [] ++ asciis "/" ++ leaf ++
      suffix).length < pathMax) :
    backendPath dir middle leaf suffix =
      .ok (dir ++ (middle.map fun m => asciis "/" ++ m).getD [] ++ asciis "/" ++ leaf ++
        suffix) := by
  unfold backendPath
  exact if_neg (not_le.2 h)

theorem backendJoin_eq {dir leaf : Bytes} (h : dir.length + 1 + leaf.length < pathMax) :
    backendJoin dir leaf = .ok (dir ++ asciis "/" ++ leaf) := by
  have hslash : (asciis "/").length = 1 := by decide
  have hpath : dir ++ ((none : Option Bytes).map fun m => asciis "/" ++ m).getD [] ++ asciis "/" ++
      leaf ++ [] = dir ++ asciis "/" ++ leaf := by
    rw [Option.map_none, Option.getD_none, List.append_nil, List.append_nil]
  unfold backendJoin
  rw [backendPath_eq, hpath]
  rw [hpath, List.length_append, List.length_append, hslash]
  exact h

/-- Where the paths fit, the prefix hook is written. -/
theorem exists_writePdHook (hslash : ascii '/' ∉ iface) (hfits : pdFits run iface) :
    ∃ path text, writePdHook run iface = .ok (path, text) := by
  have hfits' := hfits
  unfold pdFits pathMax at hfits'
  have hone : (asciis "/").length = 1 := by decide
  have hprefixes : (asciis "prefixes").length = 8 := by decide
  have hhooks : (asciis "hooks").length = 5 := by decide
  have hpd : (asciis "/pd-").length = 4 := by decide
  have hdir : run ++ asciis "/" ++ asciis "prefixes" = run ++ asciis "/prefixes" := by
    rw [List.append_assoc]
    rfl
  have hscript : ∃ text, pdScript (some iface) (some (run ++ asciis "/prefixes" ++ asciis "/" ++
      iface)) = .ok text := by
    have hpath : run ++ asciis "/prefixes" ++ asciis "/" ++ iface =
        (pdValues run iface).target := by
      unfold pdValues
      simp only [List.append_assoc]
      repeat rw [asciis_ofList]
      rfl
    have hroom : run.length + iface.length + 15 < pathMax := hfits
    unfold pdScript
    dsimp only
    rw [pd_staged hslash, if_pos hroom, hpath]
    exact ⟨_, if_neg (not_lt.2 (length_pd_le hfits))⟩
  obtain ⟨text, htext⟩ := hscript
  refine ⟨_, _, bind_eq_ok.2 ⟨_, backendJoin_eq ?_, bind_eq_ok.2 ⟨_, backendJoin_eq ?_,
    bind_eq_ok.2 ⟨_, backendJoin_eq ?_, (if_neg ?_).trans (bind_eq_ok.2 ⟨text, ?_, rfl⟩)⟩⟩⟩⟩
  · rw [hprefixes]
    unfold pathMax
    omega
  · simp only [List.length_append, hone, hprefixes]
    unfold pathMax
    omega
  · rw [hhooks]
    unfold pathMax
    omega
  · simp only [List.length_append, hone, hhooks, hpd]
    unfold pathMax
    omega
  · rw [hdir]
    exact htext

end Reading

theorem no_quote_udhcpcValues {run iface : Bytes} (hrun : 39 ∉ run) (hiface : 39 ∉ iface)
    (k : Place) : 39 ∉ (udhcpcValues run iface).at k := by
  have hudhcpc : 39 ∉ asciis "/udhcpc/" := by
    rw [asciis_ofList]
    decide
  have haddress : 39 ∉ asciis ".address" := by
    rw [asciis_ofList]
    decide
  have hreported : 39 ∉ asciis "/reported/" := by
    rw [asciis_ofList]
    decide
  have hdot : 39 ∉ asciis "/reported/." := by
    rw [asciis_ofList]
    decide
  have htmp : 39 ∉ asciis ".tmp" := by
    rw [asciis_ofList]
    decide
  cases k <;> simp [udhcpcValues, Values.at, hrun, hiface, hudhcpc, haddress, hreported, hdot, htmp]

theorem no_quote_pdValues {run iface : Bytes} (hrun : 39 ∉ run) (hiface : 39 ∉ iface)
    (k : Place) : 39 ∉ (pdValues run iface).at k := by
  have hprefixes : 39 ∉ asciis "/prefixes/" := by
    rw [asciis_ofList]
    decide
  have hdot : 39 ∉ asciis "/prefixes/." := by
    rw [asciis_ofList]
    decide
  have htmp : 39 ∉ asciis ".tmp" := by
    rw [asciis_ofList]
    decide
  cases k <;> simp [pdValues, Values.at, hrun, hiface, hprefixes, hdot, htmp]

/-- How the shell reads a script is the template, with its values in their places. -/
def ReadsAs (template : List (Symbol Place)) (v : Values) (text : Bytes) : Prop :=
  tokens text = (read {} [] template).map (fillToken v.at)

theorem pd_target_word :
    .word ((asciis "out=").map (fun b => ⟨[], false, .byte b⟩) ++
      [⟨[.single], false, .value .target⟩]) ∈ read {} [] pdTemplate := by
  unfold pdTemplate
  repeat rw [fixed_ofList]
  decide +kernel

/-- A quote in the path breaks the script out of its quotes. -/
theorem not_readsAs_of_quote {v : Values} {text : Bytes} (hquote : 39 ∈ v.target) :
    ¬ReadsAs pdTemplate v text :=
  tokens_ne_of_quote pd_target_word (List.mem_append_right _ (List.mem_singleton_self _)) hquote

/-- **A generated script runs only itself, exactly where no quote goes into it unchecked.** Every
place of the two templates stands in single quotes or in a comment. For every name
`ncfg_usable_name` accepts and every run directory, the shell reads the words and the operators of
the template in the script that is written, each path inside the word it is inserted in, if and only
if a prefix hook whose paths fit has no single quote in them. -/
theorem scripts_run_themselves_iff (run iface : Bytes) (hname : usableName iface = none) :
    (Enclosed {} udhcpcTemplate = true ∧ Enclosed {} pdTemplate = true ∧
      (∀ path text, writeScript run iface = .ok (path, text) →
        ReadsAs udhcpcTemplate (udhcpcValues run iface) text) ∧
      ∀ path text, writePdHook run iface = .ok (path, text) →
        ReadsAs pdTemplate (pdValues run iface) text) ↔
    (pdFits run iface → 39 ∉ run ∧ 39 ∉ iface) := by
  have hslash := no_slash_of_usableName hname
  have hline := no_newline_of_usableName hname
  constructor
  · rintro ⟨-, -, -, hpd⟩ hfits
    obtain ⟨path, text, hwrite⟩ := exists_writePdHook hslash hfits
    by_contra hquote
    refine not_readsAs_of_quote ?_ (hpd path text hwrite)
    unfold pdValues
    rw [List.mem_append, List.mem_append]
    by_contra hnone
    push Not at hnone
    exact hquote ⟨hnone.1.1, hnone.2⟩
  · intro hquote
    refine ⟨udhcpc_part.enclosed, pd_part.enclosed, fun path text h => ?_, fun path text h => ?_⟩
    · obtain ⟨hrun, hiface, rfl⟩ := of_writeScript hslash h
      exact reads_of_part udhcpc_part (fun k _ => no_quote_udhcpcValues hrun hiface k) hline
    · obtain ⟨hfits, rfl⟩ := of_writePdHook hslash h
      obtain ⟨hrun, hiface⟩ := hquote hfits
      exact reads_of_part pd_part (fun k _ => no_quote_pdValues hrun hiface k) hline

/-- Of a device on a machine whose run directory is `/run/netcfgd`. -/
theorem lan_scripts_run_themselves :
    (Enclosed {} udhcpcTemplate = true ∧ Enclosed {} pdTemplate = true ∧
      (∀ path text, writeScript (asciis "/run/netcfgd") (asciis "lan0") = .ok (path, text) →
        ReadsAs udhcpcTemplate (udhcpcValues (asciis "/run/netcfgd") (asciis "lan0")) text) ∧
      ∀ path text, writePdHook (asciis "/run/netcfgd") (asciis "lan0") = .ok (path, text) →
        ReadsAs pdTemplate (pdValues (asciis "/run/netcfgd") (asciis "lan0")) text) :=
  (scripts_run_themselves_iff (asciis "/run/netcfgd") (asciis "lan0") (by decide)).2
    fun _ => ⟨by decide, by decide⟩

/-- A device with this name starts `reboot` from its prefix hook. -/
theorem name_reboots :
    usableName (asciis "x';reboot;'") = none ∧
      ∃ path text, writePdHook (asciis "/run/netcfgd") (asciis "x';reboot;'") = .ok (path, text) ∧
        .word ((asciis "reboot").map fun b => ⟨[], false, .byte b⟩) ∈ @tokens Place text ∧
        ¬ReadsAs pdTemplate (pdValues (asciis "/run/netcfgd") (asciis "x';reboot;'")) text := by
  have hslash : ascii '/' ∉ asciis "x';reboot;'" := by decide
  obtain ⟨path, text, h⟩ := @exists_writePdHook (asciis "/run/netcfgd") (asciis "x';reboot;'")
    hslash (by unfold pdFits; decide)
  refine ⟨by decide, path, text, h, ?_, not_readsAs_of_quote (by decide)⟩
  rw [(of_writePdHook hslash h).2]
  unfold pdTemplate
  repeat rw [fixed_ofList]
  decide +kernel

end Netcfgd.DhcpScript
