import Netcfgd.ObservedTables
import Netcfgd.WrittenTables

/-!
# The ownership record and its file

`src/host/state.c` : the record of what netcfgd installed, as `/run/netcfgd/owned.json` holds it.
Its lists of backends and of delivered DNS are read by the tables of the observation, and everything
else by readers of the file's own, which take the first member of a name and cut a string at its
first NUL. `ownedText` is what `ncfg_owned_write` puts into the file, stamped with the boot it is
written in, and `ownedRead` is what `ncfg_owned_read` makes of a file, empty where it is refused or
belongs to another boot.
-/

namespace Netcfgd.Model

open Json

/-! ## The readers of the file -/

/-- `string_of` : a string, cut at its first NUL. -/
def cutString : Doc → Option CText
  | .string bytes => some (cText bytes)
  | _ => none

def NoNul (d : Doc) : Prop := ∀ bytes, d = .string bytes → ∀ c ∈ bytes, c ≠ 0

/-- `ncfg_owned_object_t` : an address or a route netcfgd installed. -/
structure ObjectRow where
  interface : CText
  key : CText
  origin : ℤ
  deriving DecidableEq

/-- `ncfg_observed_hook_state_t` : what a hook was last told. -/
structure HookRow where
  interface : CText
  phase : ℤ
  value : CText
  deriving DecidableEq

/-- `ncfg_backend_restart_t` : starts of a backend that did not stay up. -/
structure RestartRow where
  kind : ℤ
  interface : CText
  count : Int64
  deriving DecidableEq

/-- The lists of `ncfg_owned_state_t`. -/
structure OwnedRows where
  createdLinks : List CText := []
  addresses : List ObjectRow := []
  routes : List ObjectRow := []
  backends : List ObservedBackend := []
  backendRestarts : List RestartRow := []
  dns : List AppliedDns := []
  forwarding : List CText := []
  privacy : List CText := []
  acceptRa : List CText := []
  hookState : List HookRow := []
  qdisc : List CText := []
  ingress : List CText := []
  deriving DecidableEq

/-- `ncfg_owned_state_t` : the lists, and the boot they belong to. -/
structure OwnedRecord where
  boot : Option CText := none
  rows : OwnedRows := {}
  deriving DecidableEq

theorem noNul_of_string {d : Doc} {s : CText} (h : d = .string s.1) : NoNul d := by
  rintro bytes rfl
  cases h
  exact s.2

theorem noNul_word {set : WordSet} {v : ℤ} {w : String} (h : set.name v = some w) :
    NoNul (.string (asciis w)) :=
  noNul_of_string (s := ⟨asciis w, (set.short w (set.mem_of_name h)).2⟩) rfl

theorem string_of_cutString {d : Doc} {s : CText} (h : cutString d = some s) (hnul : NoNul d) :
    d = .string s.1 := by
  cases d with
  | string bytes =>
    cases h
    exact congrArg Doc.string (cString_eq (hnul bytes rfl)).symm
  | null | bool _ | number _ | array _ | object _ => cases h

def cut : Kind CText where
  read := cutString
  write s := [.scalar (.string s.1)]
  script s := .scalar (.string s.1)
  Says d s := d = .string s.1
  Clear := NoNul
  Sound _ := True
  Keeps _ := True
  shape := .plain
  says_of_read h hnul := string_of_cutString h hnul
  clear_of_says h := noNul_of_string h
  names_of_says := @Kind.names_of_says _ Kind.str
  sound_of_read _ _ := trivial
  calls_script := @Kind.calls_script _ Kind.str
  said_ne_null := Kind.str.said_ne_null
  sound_of_keeps _ := trivial
  read_script {s} _ := by
    rw [Kind.said_string]
    exact iff_of_true (congrArg some (cText_val s)) trivial

/-- A word of the file, under a name. A number that has no word is written by leaving the member
out. -/
def wordOf (set : WordSet) (name : String) : Entry ℤ where
  name
  absent := none
  omits v := (set.name v).isNone
  read d := (cutString d).bind fun word => set.find word.1
  write := set.calls
  script := set.script
  Says d v := ∃ w, set.name v = some w ∧ d = .string (asciis w)
  Clear := NoNul
  Sound _ := True
  Keeps v := (set.name v).isSome
  shape := .plain
  says_of_read {d v} h hnul := by
    obtain ⟨word, hword, hfind⟩ := Option.bind_eq_some_iff.1 h
    obtain ⟨w, hname, heq⟩ := set.find_eq_some.1 hfind
    exact ⟨w, hname, by rw [string_of_cutString hword hnul, heq]⟩
  clear_of_says := by
    rintro d v ⟨w, hname, rfl⟩
    exact noNul_word hname
  names_of_says := @Kind.names_of_says _ (Kind.enum set)
  sound_of_read _ _ := trivial
  sound_of_absent _ := trivial
  calls_script {v} _ ho := by
    refine set.calls_script ?_
    cases hname : set.name v with
    | some w => rfl
    | none =>
      rw [hname] at ho
      cases ho
  sound_of_keeps _ := trivial
  read_back {v} _ := by
    cases hname : set.name v with
    | none => exact iff_of_false nofun nofun
    | some w =>
      rw [set.said_script hname]
      refine iff_of_true ?_ rfl
      have hcut : (cText (asciis w)).1 = asciis w :=
        cString_eq (set.short w (set.mem_of_name hname)).2
      change set.find (cText (asciis w)).1 = some v
      rw [hcut]
      exact set.find_eq_some.2 ⟨w, hname, rfl⟩

/-- The members `read_objects` takes. -/
def objectTable : Table (CText × CText × ℤ × Unit) :=
  .cons (cut.required "interface")
    (.cons (cut.required "key") (.cons (wordOf origins "origin") .nil))

def objectRow : Kind ObjectRow :=
  .loose objectTable
    ⟨fun (interface, key, origin, ()) => ⟨interface, key, origin⟩,
      fun s => (s.interface, s.key, s.origin, ()), fun _ => rfl, fun _ => rfl⟩
    (by decide +kernel)

/-- The members `read_hook_state` takes. -/
def hookTable : Table (CText × ℤ × CText × Unit) :=
  .cons (cut.required "interface") (.cons (wordOf hookPhases "phase")
    (.cons (cut.required "value") .nil))

def hookRow : Kind HookRow :=
  .loose hookTable
    ⟨fun (interface, phase, value, ()) => ⟨interface, phase, value⟩,
      fun s => (s.interface, s.phase, s.value, ()), fun _ => rfl, fun _ => rfl⟩
    (by decide +kernel)

/-- One element of `read_restarts` : a kind, an interface and a number, by position. -/
def readRestart : Doc → Option RestartRow
  | .array [kind, interface, .number text] => do
    let word ← cutString kind
    let kind ← backendKinds.find word.1
    let interface ← cutString interface
    let count := jsonInt (numberNode text) (-1)
    if count < 0 ∨ 4294967295 < count then none
    else some ⟨kind, interface, Int64.ofInt count⟩
  | _ => none

def SaysRestart (d : Doc) (r : RestartRow) : Prop :=
  ∃ word text, backendKinds.name r.kind = some word ∧ Denotes text r.count ∧
    d = .array [.string (asciis word), .string r.interface.1, .number text]

/-- The elements of a count of restarts : the word is left out of one whose kind has none. -/
def restartItems (r : RestartRow) : List Script :=
  (if (backendKinds.name r.kind).isSome then [backendKinds.script r.kind] else []) ++
    [Script.scalar (.string r.interface.1), .scalar (.int r.count)]

theorem readRestart_eq_some {kind interface : Doc} {text : Bytes} {r : RestartRow} :
    readRestart (.array [kind, interface, .number text]) = some r ↔
      (∃ word, cutString kind = some word ∧ backendKinds.find word.1 = some r.kind) ∧
        cutString interface = some r.interface ∧ Denotes text r.count ∧ 0 ≤ r.count.toInt ∧
          r.count.toInt ≤ 4294967295 := by
  simp only [readRestart, Option.bind_eq_bind, Option.bind_eq_some_iff]
  constructor
  · rintro ⟨word, hword, k, hkind, i, hinterface, h⟩
    split_ifs at h with hrange
    cases h
    have hden := @denotes_of_ne text (-1) (by omega)
    refine ⟨⟨word, hword, hkind⟩, hinterface, hden, ?_⟩
    rw [← hden (-1)]
    omega
  · rintro ⟨⟨word, hword, hkind⟩, hinterface, hden, hlow, hhigh⟩
    refine ⟨word, hword, r.kind, hkind, r.interface, hinterface, ?_⟩
    rw [hden (-1), if_neg (by omega), Int64.ofInt_toInt]

theorem says_of_readRestart {d : Doc} {r : RestartRow} (h : readRestart d = some r)
    (hclear : ∀ items, d = .array items → ∀ item ∈ items, NoNul item) : SaysRestart d r := by
  unfold readRestart at h
  split at h
  · rename_i kind interface text
    obtain ⟨⟨word, hword, hfind⟩, hinterface, hden, -⟩ := readRestart_eq_some.1 h
    obtain ⟨w, hname, heq⟩ := backendKinds.find_eq_some.1 hfind
    have hnul := hclear _ rfl
    refine ⟨w, text, hname, hden, ?_⟩
    rw [string_of_cutString hword (hnul kind (by simp)), heq,
      string_of_cutString hinterface (hnul interface (by simp))]
  · cases h

/-- What is written of a count of restarts is read back where the kind has a word and the count is
one of 32 bits. -/
theorem readRestart_written {r : RestartRow} :
    readRestart (said (.array (restartItems r))) = some r ↔
      (backendKinds.name r.kind).isSome ∧ 0 ≤ r.count.toInt ∧ r.count.toInt ≤ 4294967295 := by
  cases hname : backendKinds.name r.kind with
  | none =>
    refine iff_of_false ?_ nofun
    rw [restartItems, hname]
    exact nofun
  | some w =>
    have hsaid : said (.array (restartItems r)) =
        .array [.string (asciis w), .string r.interface.1, .number (decimal r.count.toInt)] := by
      rw [restartItems, hname, if_pos (show (some w).isSome = true from rfl)]
      change Doc.array [said (backendKinds.script r.kind), said (.scalar (.string r.interface.1)),
        .number (decimal r.count.toInt)] = _
      rw [backendKinds.said_script hname, Kind.said_string]
    rw [hsaid, readRestart_eq_some]
    have hword : cutString (.string (asciis w)) = some ⟨asciis w, (backendKinds.short w
        (backendKinds.mem_of_name hname)).2⟩ := congrArg some (cText_val ⟨asciis w, _⟩)
    have hkind : ∃ word, cutString (.string (asciis w)) = some word ∧
        backendKinds.find word.1 = some r.kind :=
      ⟨_, hword, backendKinds.find_eq_some.2 ⟨w, hname, rfl⟩⟩
    have hinterface : cutString (.string r.interface.1) = some r.interface :=
      congrArg some (cText_val r.interface)
    simp only [hkind, hinterface, denotes_decimal, true_and, Option.isSome_some]

def restartRow : Kind RestartRow where
  read := readRestart
  write r := .arrayBegin :: (itemsCalls (restartItems r) ++ [Call.arrayEnd])
  script r := .array (restartItems r)
  Says := SaysRestart
  Clear d := ∀ items, d = .array items → ∀ item ∈ items, NoNul item
  Sound _ := True
  Keeps r := (backendKinds.name r.kind).isSome ∧ 0 ≤ r.count.toInt ∧ r.count.toInt ≤ 4294967295
  shape := .list .plain
  says_of_read := says_of_readRestart
  clear_of_says := by
    rintro d r ⟨word, text, hname, -, rfl⟩ items heq item hitem
    cases heq
    simp only [List.mem_cons, List.not_mem_nil, or_false] at hitem
    rcases hitem with rfl | rfl | rfl
    · exact noNul_word hname
    · exact noNul_of_string rfl
    · exact fun _ h => nomatch h
  names_of_says := by
    rintro d r ⟨word, text, -, -, rfl⟩
    exact names_array.2 (by simp [Names])
  sound_of_read _ _ := trivial
  calls_script _ := rfl
  said_ne_null _ := nofun
  sound_of_keeps _ := trivial
  read_script _ := readRestart_written

/-! ## The record -/

/-- `owned_members`, all but the boot. -/
def rowsTable : Table (List CText × List ObjectRow × List ObjectRow × List ObservedBackend ×
    List RestartRow × List AppliedDns × List CText × List CText × List CText × List HookRow ×
    List CText × List CText × Unit) :=
  .cons (cut.allOf "created_links") (.cons (objectRow.allOf "addresses")
    (.cons (objectRow.allOf "routes") (.cons (backend.allOf "backends")
      (.cons (restartRow.allOf "backend_restarts") (.cons (appliedDns.allOf "dns")
        (.cons (cut.allOf "forwarding") (.cons (cut.allOf "privacy") (.cons (cut.allOf "accept_ra")
          (.cons (hookRow.allOf "hook_state") (.cons (cut.allOf "qdisc")
            (.cons (cut.allOf "ingress") .nil)))))))))))

/-- `owned_members`. -/
def ownedTable := Table.cons (cut.optional "boot" false false) rowsTable

def owned : Kind OwnedRecord :=
  .loose ownedTable
    ⟨fun
      (boot, createdLinks, addresses, routes, backends, backendRestarts, dns, forwarding, privacy,
        acceptRa, hookState, qdisc, ingress, ()) =>
        ⟨boot,
          ⟨createdLinks, addresses, routes, backends, backendRestarts, dns, forwarding, privacy,
          acceptRa, hookState, qdisc, ingress⟩⟩,
      fun s => (s.boot, s.rows.createdLinks, s.rows.addresses, s.rows.routes, s.rows.backends,
        s.rows.backendRestarts, s.rows.dns, s.rows.forwarding, s.rows.privacy, s.rows.acceptRa,
        s.rows.hookState, s.rows.qdisc, s.rows.ingress, ()),
      fun _ => rfl, fun _ => rfl⟩
    (proper_of_checks rfl)

def OwnedRows.Keeps (rows : OwnedRows) : Prop := owned.Keeps ⟨none, rows⟩

/-! ## The file -/

/-- `STATE_FILE_MAX`. -/
def stateFileMax : ℕ := 16 * 1024 * 1024

/-- `STATE_BUILD_MAX`. -/
def stateBuildMax : ℕ := 32 * 1024 * 1024

/-- `DEFAULT_LIMIT` of a buffer. -/
def defaultLimit : ℕ := 16 * 1024 * 1024

/-- `read_owned_text` : nothing where it refuses. -/
def readOwnedText (text : Bytes) : Option OwnedRecord :=
  match document text with
  | .ok d => owned.read d
  | .error _ => none

/-- A record that says it is of another boot is discarded, where the boot is known. -/
def ofThisBoot (now : Option CText) (r : OwnedRecord) : OwnedRecord :=
  match r.boot, now with
  | some boot, some now => if boot.1 ≠ [] ∧ now ≠ boot then {} else r
  | _, _ => r

/-- `ncfg_owned_read`, in a boot, where that is known, and of a file, where it could be read. -/
def ownedRead (now : Option CText) (file : Option Bytes) : OwnedRecord :=
  let text := file.filter fun text => text.length ≤ stateFileMax
  ofThisBoot now ((text.bind readOwnedText).getD {})

def noText : CText := ⟨[], nofun⟩

def stamped (now : Option CText) (rows : OwnedRows) : OwnedRecord := ⟨now.getD noText, rows⟩

def ownedBuilt (now : Option CText) (rows : OwnedRows) : Writer :=
  write stateBuildMax (owned.write (stamped now rows))

/-- `ncfg_owned_write` up to its file : what it is to hold, nothing where it refuses. A layout that
its buffer could not hold is an empty text. -/
def ownedText (now : Option CText) (rows : OwnedRows) : Option Bytes :=
  let built := ownedBuilt now rows
  if built.done then
    let laid := pretty defaultLimit built.buf.bytes
    if laid.1 then some (Writer.cString (if laid.2.failed then [] else laid.2.bytes)) else none
  else none

/-- The text of a record, laid out, whether or not a buffer holds it. -/
def ownedLaid (now : Option CText) (rows : OwnedRows) : Bytes :=
  render indented 0 (owned.script (stamped now rows)).value

/-! ## What is written is sound -/

theorem shows_strOf {name : String} {must : Bool} : (strOf name must).Shows :=
  Kind.shows_of_sound fun _ _ _ => trivial

theorem shows_trueOnly {name : String} : (trueOnly name).Shows :=
  Kind.shows_of_sound fun _ => trivial

theorem shows_known {name : String} : (known name).Shows :=
  Kind.shows_of_sound fun _ _ _ => trivial

section

variable {β : Type} {k : Kind β}

theorem Kind.Firm.someOf (h : k.Firm) {name : String} : (k.someOf name).Shows :=
  h.list.shows.member

theorem Kind.Firm.allOf (h : k.Firm) {name : String} : (k.allOf name).Shows :=
  fun bs hbs => ⟨rfl, .inr (h.list bs hbs)⟩

end

theorem firm_str : Kind.str.Firm := Kind.firm_of_sound fun _ => trivial

theorem firm_cut : cut.Firm := Kind.firm_of_sound fun _ => trivial

theorem shows_number {low high : ℤ} {name : String} {must nullable : Bool} :
    ((Kind.int low high).optional name must nullable).Shows :=
  Kind.shows_of_sound fun _ _ _ => trivial

theorem shows_dnsMode : dnsMode.Shows := by
  intro v hv
  by_cases hexec : v.mode = execMode
  · cases hcommand : v.command with
    | some command => exact absurd (by simp [dnsMode, hexec, hcommand]) hv
    | none =>
      refine .inr ?_
      change Spoils (writeDnsMode v)
      rw [writeDnsMode, if_pos hexec, hcommand]
      exact ((spoils_noString.append [.objectEnd]).cons _).cons _
  · have hword : ¬(dnsModes.name v.mode).isSome := by simpa [dnsMode, hexec] using hv
    change writeDnsMode v = [] ∨ Spoils (writeDnsMode v)
    rw [writeDnsMode, if_neg hexec]
    exact Kind.shows_enum dnsModes v.mode hword

theorem firm_neighbour : neighbour.Firm :=
  Kind.firm_struct neighbourTable
    (.cons shows_strOf <| .cons shows_strOf <| .cons shows_strOf <| .nil)

theorem firm_steerable : steerable.Firm :=
  Kind.firm_struct steerableTable
    (.cons shows_strOf <| .cons shows_number <| .cons shows_number <| .cons shows_number <| .nil)

theorem firm_steered : steered.Firm :=
  Kind.firm_struct steeredTable
    (.cons shows_strOf <| .cons (Kind.shows_of_sound fun _ => trivial) <| .cons shows_trueOnly <|
      .nil)

theorem firm_accessControl : accessControl.Firm :=
  Kind.firm_struct accessControlTable
    (.cons (Kind.shows_of_sound fun _ => trivial) <| .cons firm_str.list.shows.required <|
      .cons firm_str.list.shows.required <| .cons firm_str.someOf <| .cons shows_trueOnly <|
      .cons firm_neighbour.someOf <| .cons firm_steerable.someOf <| .cons firm_steered.someOf <|
      .nil)

theorem firm_accessPoint : accessPoint.Firm :=
  Kind.firm_struct accessPointTable
    (.cons (Kind.shows_of_sound fun _ => trivial) <| .cons shows_strOf <| .cons shows_number <|
      .cons shows_strOf <| .cons (Kind.shows_of_sound fun _ => trivial) <| .cons shows_strOf <|
      .cons shows_strOf <| .cons shows_trueOnly <| .cons shows_trueOnly <| .cons shows_trueOnly <|
      .cons shows_trueOnly <| .cons shows_trueOnly <| .cons shows_trueOnly <|
      .cons shows_trueOnly <| .cons shows_trueOnly <| .cons shows_trueOnly <| .nil)

theorem firm_lease : lease.Firm :=
  Kind.firm_struct leaseTable
    (.cons shows_strOf <| .cons shows_strOf <| .cons shows_strOf <|
      .cons (Kind.shows_of_sound fun _ => trivial) <| .nil)

theorem firm_mapping : mapping.Firm :=
  Kind.firm_struct mappingTable
    (.cons shows_strOf <| .cons (Kind.shows_of_sound fun _ => trivial) <| .cons shows_strOf <|
      .cons (Kind.shows_of_sound fun _ => trivial) <|
      .cons (Kind.shows_of_sound fun _ => trivial) <| .cons shows_strOf <| .nil)

theorem firm_backend : backend.Firm :=
  Kind.firm_struct backendTable
    (.cons ((Kind.shows_enum _).required) <| .cons shows_strOf <|
      .cons (Kind.shows_of_sound fun _ => trivial) <| .cons shows_known <|
      .cons firm_accessControl.shows.optional <| .cons shows_number <|
      .cons firm_accessPoint.shows.optional <| .cons shows_known <| .cons shows_known <|
      .cons shows_known <| .cons shows_known <| .cons firm_str.someOf <| .cons shows_strOf <|
      .cons firm_lease.someOf <| .cons firm_mapping.someOf <| .nil)

theorem firm_dnsServer : dnsServer.Firm :=
  Kind.firm_struct dnsServerTable
    (.cons (Kind.shows_of_sound fun _ _ _ => trivial) <| .cons shows_number <| .cons shows_strOf <|
      .nil)

theorem firm_routingDomain : routingDomain.Firm :=
  Kind.firm_struct routingDomainTable
    (.cons shows_strOf <| .cons (Kind.shows_of_sound fun _ => trivial) <| .nil)

theorem firm_dnsPolicy : dnsPolicy.Firm :=
  Kind.firm_struct dnsPolicyTable
    (.cons (shows_dnsMode.member) <| .cons firm_dnsServer.allOf <| .cons firm_str.allOf <|
      .cons firm_routingDomain.allOf <| .cons firm_str.allOf <|
      .cons ((Kind.shows_choice _).optional) <| .cons ((Kind.shows_choice _).optional) <| .nil)

theorem firm_appliedDns : appliedDns.Firm :=
  Kind.firm_struct appliedDnsTable
    (.cons shows_strOf <| .cons firm_dnsPolicy.shows.required <| .nil)

theorem firm_objectRow : objectRow.Firm :=
  Kind.firm_loose objectTable
    (.cons firm_cut.shows.required <| .cons firm_cut.shows.required <|
      .cons (Kind.shows_of_sound fun _ => trivial) <| .nil)

theorem firm_hookRow : hookRow.Firm :=
  Kind.firm_loose hookTable
    (.cons firm_cut.shows.required <| .cons (Kind.shows_of_sound fun _ => trivial) <|
      .cons firm_cut.shows.required <| .nil)

theorem firm_restartRow : restartRow.Firm := Kind.firm_of_sound fun _ => trivial

theorem firm_owned : owned.Firm :=
  Kind.firm_loose ownedTable
    (.cons firm_cut.shows.optional <| .cons firm_cut.allOf <| .cons firm_objectRow.allOf <|
      .cons firm_objectRow.allOf <| .cons firm_backend.allOf <| .cons firm_restartRow.allOf <|
      .cons firm_appliedDns.allOf <| .cons firm_cut.allOf <| .cons firm_cut.allOf <|
      .cons firm_cut.allOf <| .cons firm_hookRow.allOf <| .cons firm_cut.allOf <|
      .cons firm_cut.allOf <| .nil)

/-! ## A record and its file -/

theorem keeps_stamped {now : Option CText} {rows : OwnedRows} :
    owned.Keeps (stamped now rows) ↔ rows.Keeps := by
  constructor
  · rintro ⟨-, h⟩
    exact ⟨⟨nofun, nofun⟩, h⟩
  · rintro ⟨-, h⟩
    exact ⟨⟨nofun, fun _ _ => trivial⟩, h⟩

theorem keeps_nil {β : Type} (k : Kind β) (name : String) : (k.allOf name).Keeps [] :=
  .inr fun _ h => nomatch h

theorem keeps_empty : OwnedRows.Keeps {} :=
  ⟨⟨nofun, nofun⟩, keeps_nil .., keeps_nil .., keeps_nil .., keeps_nil .., keeps_nil ..,
    keeps_nil .., keeps_nil .., keeps_nil .., keeps_nil .., keeps_nil .., keeps_nil ..,
    keeps_nil .., trivial⟩

section

variable {now now' : Option CText} {rows : OwnedRows} {text : Bytes}

theorem ownedText_of_done (hdone : (ownedBuilt now rows).done = true)
    (hsize : (ownedLaid now rows).length ≤ stateFileMax) :
    ownedText now rows = some (ownedLaid now rows) := by
  obtain ⟨hfits, htext⟩ := Kind.text_of_done firm_owned hdone
  obtain ⟨hended, hlaid, hroom⟩ := pretty_render hfits defaultLimit
  change (ownedBuilt now rows).buf.bytes = _ at htext
  have hok := hroom hsize
  have hbytes := hlaid hok
  rw [ownedText]
  simp only [hdone, if_true, htext, hended, hok, Bool.false_eq_true, if_false, hbytes]
  exact congrArg some (cString_eq (render_ne_zero blank_indented _ hfits 0))

theorem done_of_ownedText (h : ownedText now rows = some text) :
    (ownedBuilt now rows).done = true := by
  by_contra hnot
  rw [ownedText] at h
  simp only [hnot] at h
  cases h

theorem readOwnedText_laid (hdone : (ownedBuilt now rows).done = true)
    (hsize : (ownedLaid now rows).length ≤ stateFileMax) :
    readOwnedText (ownedLaid now rows) = owned.read (said (owned.script (stamped now rows))) := by
  obtain ⟨hfits, -⟩ := Kind.text_of_done firm_owned hdone
  have hlength : (ownedLaid now rows).length < 2 ^ 32 := by
    rw [stateFileMax] at hsize
    omega
  rw [readOwnedText, ownedLaid, document_render blank_indented hfits hlength]
  rfl

theorem boot_of_read {r : OwnedRecord}
    (h : owned.read (said (owned.script (stamped now rows))) = some r) :
    r.boot = some (now.getD noText) := by
  obtain ⟨⟨boot, rest⟩, hv, rfl⟩ := Option.map_eq_some_iff.1 h
  obtain ⟨-, n, hread⟩ := (Kind.readNamed_eq_some ownedTable).1 hv
  have hboot : (cut.optional "boot" false false).Keeps (some (now.getD noText)) :=
    ⟨nofun, fun _ _ => trivial⟩
  exact fst_of_written (proper_of_checks rfl) hboot hread

/-- The machine has booted since. -/
def OtherBoot (now now' : Option CText) : Prop :=
  ∃ boot boot', now = some boot ∧ boot.1 ≠ [] ∧ now' = some boot' ∧ boot' ≠ boot

theorem ownedRead_some (hsize : text.length ≤ stateFileMax) :
    ownedRead now (some text) = ofThisBoot now ((readOwnedText text).getD {}) := by
  rw [ownedRead, Option.filter_some, if_pos (by simpa using hsize)]
  rfl

theorem ofThisBoot_empty : ofThisBoot now {} = {} := by
  cases now <;> rfl

theorem ownedRead_otherBoot (hdone : (ownedBuilt now rows).done = true)
    (hsize : (ownedLaid now rows).length ≤ stateFileMax) (hother : OtherBoot now now') :
    ownedRead now' (some (ownedLaid now rows)) = {} := by
  obtain ⟨boot, boot', rfl, hne, rfl, hdiffer⟩ := hother
  rw [ownedRead_some hsize, readOwnedText_laid hdone hsize]
  cases hread : owned.read (said (owned.script (stamped (some boot) rows))) with
  | none => exact ofThisBoot_empty
  | some r =>
    obtain ⟨stamp, rows'⟩ := r
    obtain rfl : stamp = some boot := boot_of_read hread
    exact if_pos ⟨hne, hdiffer⟩

theorem ownedRead_laid (hdone : (ownedBuilt now rows).done = true)
    (hsize : (ownedLaid now rows).length ≤ stateFileMax) (hother : ¬OtherBoot now now') :
    ownedRead now' (some (ownedLaid now rows)) =
      (owned.read (said (owned.script (stamped now rows)))).getD {} := by
  rw [ownedRead_some hsize, readOwnedText_laid hdone hsize]
  cases hread : owned.read (said (owned.script (stamped now rows))) with
  | none => exact ofThisBoot_empty
  | some r =>
    obtain ⟨stamp, rows'⟩ := r
    obtain rfl : stamp = some (now.getD noText) := boot_of_read hread
    rcases now' with _ | boot'
    · rfl
    refine if_neg fun ⟨hne, hdiffer⟩ => ?_
    rcases now with _ | boot
    · exact hne rfl
    · exact hother ⟨boot, boot', rfl, hne, rfl, hdiffer⟩

theorem readOwned_iff (hdone : (ownedBuilt now rows).done = true) :
    owned.read (said (owned.script (stamped now rows))) = some (stamped now rows) ↔ rows.Keeps :=
  (owned.read_script (Kind.sound_of_done firm_owned hdone)).trans keeps_stamped

theorem ownedRead_stamped (hdone : (ownedBuilt now rows).done = true)
    (hsize : (ownedLaid now rows).length ≤ stateFileMax) (hother : ¬OtherBoot now now')
    (hkeeps : rows.Keeps) : ownedRead now' (some (ownedLaid now rows)) = stamped now rows := by
  rw [ownedRead_laid hdone hsize hother, (readOwned_iff hdone).2 hkeeps, Option.getD_some]

theorem rows_ownedRead_iff (hdone : (ownedBuilt now rows).done = true)
    (hsize : (ownedLaid now rows).length ≤ stateFileMax) (hother : ¬OtherBoot now now') :
    (ownedRead now' (some (ownedLaid now rows))).rows = rows ↔ rows.Keeps := by
  refine ⟨fun h => ?_, fun h => by rw [ownedRead_stamped hdone hsize hother h]; rfl⟩
  rw [ownedRead_laid hdone hsize hother] at h
  cases hread : owned.read (said (owned.script (stamped now rows))) with
  | none =>
    -- the empty record has no rows, and these are kept
    rw [hread] at h
    rw [← h]
    exact keeps_empty
  | some r =>
    rw [hread, Option.getD_some] at h
    refine (readOwned_iff hdone).1 ?_
    obtain ⟨boot, rows'⟩ := r
    have hboot := boot_of_read hread
    dsimp only at h hboot
    rw [hread, h, hboot]
    rfl

end

/-! ## A file of any text -/

/-- The record is all that a text says, and everything in it has a table. -/
def SaysOwned (text : Bytes) (r : OwnedRecord) : Prop :=
  ∃ d, document text = .ok d ∧ owned.Says d r ∧ Names d owned.shape

/-- A text of which nothing is left out : no string that the file's own readers take has a NUL, and
no object they read states a name twice. -/
def ClearOwned (text : Bytes) : Prop := ∃ d, document text = .ok d ∧ owned.Clear d

/-- A record that is read is the text's own exactly where the text is clear. -/
theorem saysOwned_iff {text : Bytes} {r : OwnedRecord} (h : readOwnedText text = some r) :
    SaysOwned text r ↔ ClearOwned text := by
  constructor
  · rintro ⟨d, hd, hsays, -⟩
    exact ⟨d, hd, owned.clear_of_says hsays⟩
  · rintro ⟨d, hd, hclear⟩
    rw [readOwnedText, hd] at h
    have hsays := owned.says_of_read h hclear
    exact ⟨d, hd, hsays, owned.names_of_says hsays⟩

theorem ofThisBoot_cases (now : Option CText) (r : OwnedRecord) :
    ofThisBoot now r = {} ∨ ofThisBoot now r = r := by
  unfold ofThisBoot
  split
  · split_ifs
    · exact .inl rfl
    · exact .inr rfl
  · exact .inr rfl

/-- A record that is not empty comes from a text. -/
theorem text_of_ownedRead {now : Option CText} {file : Option Bytes} (h : ownedRead now file ≠ {}) :
    ∃ text, file = some text ∧ readOwnedText text = some (ownedRead now file) := by
  unfold ownedRead at h ⊢
  dsimp only at h ⊢
  have hread := (ofThisBoot_cases now _).resolve_left h
  rw [hread] at h ⊢
  cases htext : (file.filter fun text => text.length ≤ stateFileMax).bind readOwnedText with
  | none => exact absurd (by rw [htext]; rfl) h
  | some r =>
    obtain ⟨text, hfile, hr⟩ := Option.bind_eq_some_iff.1 htext
    exact ⟨text, (Option.filter_eq_some_iff.1 hfile).1, hr⟩

end Netcfgd.Model
