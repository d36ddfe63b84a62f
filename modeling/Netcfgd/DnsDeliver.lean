import Netcfgd.ResolverFiles

/-!
# The scopes a resolver is left with

`src/backend/dns/deliver.c` : one delivery hands each of its scopes to `resolvconf`, as the record
of a key, or to `systemd-resolved`, as the two lists of a link, and then writes a file for each
scope under the run directory. What `resolvconf` and `resolved` hold lasts from one delivery to the
next, and a delivery says nothing about a scope that is not in it : no `resolvconf -d` and no
`resolvectl revert` is run, no file is taken away, and a link whose names are none is told nothing
of its names.

What a record or a link is left with is what the last scope there says that tells it anything
(`teller`, `Handed`), and a record says it in lines, so a value that breaks its line says something
else (`said`). `Exact` is what a resolver is left with after a delivery, were it exactly what was
delivered. `deliver_exact_iff` says what the scopes have to be by themselves for that (`Fits`) and
what the state before has to be (`Covers`), and `deliveries_exact_iff` when a whole run of
deliveries keeps to it : each tells again every list that the one before it filled (`Follows`).

The modes that hand scopes over are the three here. That `exec` gives them to a script is left out.
-/

namespace Netcfgd.DnsDeliver

open Netcfgd.Resolver

/-! ## What is handed over -/

/-- `DNS_PATH_MAX`. -/
def pathMax : ℕ := 512

/-- `DEFAULT_LIMIT` of `src/base/buf.c`. -/
def recordMax : ℕ := 16 * 1024 * 1024

/-- `ncfg_dns_mode_name`. -/
def modeName : Mode → Text
  | .none => "none".toList
  | .writeResolvConf => "write_resolv_conf".toList
  | .resolvconf => "resolvconf".toList
  | .openresolv => "openresolv".toList
  | .resolved => "resolved".toList
  | .dnsmasq => "dnsmasq".toList
  | .unbound => "unbound".toList

def blobLines (p : Policy) : List Text :=
  listLine "search" p.search ++ p.servers.map (fun s => "nameserver ".toList ++ s.text) ++
    listLine "options" p.options

/-- `ncfg_dns_resolvconf_blob` : nothing of the routing domains. -/
def resolvconfBlob (p : Policy) : Option Text := finish (unlines (blobLines p))

/-- A routing domain as `resolvectl` is told it. -/
def domainWord (d : Domain) : Text := if d.exclusive then '~' :: d.suffix else d.suffix

/-- The key of a scope in `hand_to_resolvconf`, cut to its buffer. -/
def keyOf (name : Text) : Text :=
  if name = globalScope then "lo.netcfgd".toList
  else (name ++ ".netcfgd".toList).take (pathMax - 1)

/-- The link of a scope in `hand_to_resolved`. -/
def linkOf (name : Text) : Text := if name = globalScope then "lo".toList else name

/-- The text of a scope's file in `ncfg_dns_record`. -/
def recordText (s : Scope) : Option Text :=
  (resolvconfBlob s.policy).bind fun blob =>
    let text := "# scope: ".toList ++ s.name ++ "\n# mode:  ".toList ++ modeName s.policy.mode ++
      '\n' :: blob ++ s.policy.domains.flatMap fun d =>
        "# routing domain ".toList ++ d.suffix ++
          (if d.exclusive then " (exclusive)".toList else []) ++ ['\n']
    if text.length ≤ recordMax then some text else none

/-! ## The host -/

/-- A record `resolvconf` holds. -/
structure Record where
  isPrivate : Bool
  text : Text

structure Link where
  dns : List Text := []
  domain : List Text := []

/-- What deliveries leave behind them : the records of `resolvconf` by their key, the links of
`resolved`, the files of the modes that write one, and the files under the run directory's `dns`,
by the name of the scope. -/
structure World where
  records : Text → Option Record
  links : Text → Link
  conf : Mode → Option Text
  files : Text → Option Text

def World.empty : World := ⟨fun _ => none, fun _ => {}, fun _ => none, fun _ => none⟩

/-- Where a delivery goes, and what `resolvectl dns` does with a link and no server : it empties the
list, or it shows the list and leaves it. -/
structure Targets where
  runDir : Text
  showsBare : Bool

def andThen (result : World × Option Text) (next : World → World × Option Text) :
    World × Option Text :=
  if result.2 = none then next result.1 else result

def tooLarge (what : Text) : Text :=
  "the ".toList ++ what ++ " is larger than this build will render".toList

/-- `resolvconf -a`. -/
def World.add (w : World) (key : Text) (record : Record) : World :=
  { w with records := Function.update w.records key (some record) }

/-- `hand_to_resolvconf`. -/
def handToResolvconf (openresolv : Bool) : List Scope → World → World × Option Text
  | [], w => (w, none)
  | s :: rest, w =>
    match resolvconfBlob s.policy with
    | none => (w, some (tooLarge "resolvconf blob".toList))
    | some blob =>
      handToResolvconf openresolv rest
        (w.add (keyOf s.name) ⟨openresolv && s.policy.domains.any (·.exclusive), blob⟩)

/-- `resolvectl dns`. -/
def World.tellDns (w : World) (showsBare : Bool) (link : Text) (servers : List Text) : World :=
  if servers = [] ∧ showsBare then w
  else { w with links := Function.update w.links link { w.links link with dns := servers } }

/-- `resolvectl domain`. -/
def World.tellDomain (w : World) (link : Text) (domains : List Text) : World :=
  { w with links := Function.update w.links link { w.links link with domain := domains } }

/-- The names of a policy as `resolvectl domain` is told them. -/
def namesOf (p : Policy) : List Text := p.domains.map domainWord ++ p.search

/-- `hand_to_resolved` : no names are nothing to say. -/
def handToResolved (showsBare : Bool) : List Scope → World → World
  | [], w => w
  | s :: rest, w =>
    let told := w.tellDns showsBare (linkOf s.name) (s.policy.servers.map Server.text)
    handToResolved showsBare rest
      (if namesOf s.policy = [] then told else told.tellDomain (linkOf s.name) (namesOf s.policy))

def writeConf (mode : Mode) (what : Text) (text : Option Text) (w : World) : World × Option Text :=
  match text with
  | none => (w, some (tooLarge what))
  | some text => ({ w with conf := Function.update w.conf mode (some text) }, none)

def recordPath (runDir name : Text) : Text := runDir ++ "/dns/".toList ++ name ++ ".conf".toList

/-- `ncfg_dns_record`. -/
def record (runDir : Text) : List Scope → World → World × Option Text
  | [], w => (w, none)
  | s :: rest, w =>
    if pathMax ≤ (recordPath runDir s.name).length then
      (w, some ("the path under ".toList ++ runDir ++
        " is longer than this build will build".toList))
    else
      match resolvconfBlob s.policy, recordText s with
      | none, _ => (w, some (tooLarge "resolvconf blob".toList))
      | some _, none => (w, some (tooLarge ("record for scope ".toList ++ s.name)))
      | some _, some text =>
        record runDir rest { w with files := Function.update w.files s.name (some text) }

/-- `ncfg_dns_deliver`, every program and every file operation having succeeded. -/
def deliver (t : Targets) (scopes : List Scope) (w : World) : World × Option Text :=
  match scopes with
  | [] => (w, none)
  | first :: rest =>
    match rest.find? fun s => s.policy.mode ≠ first.policy.mode with
    | some s =>
      (w, some ("scopes disagree about the dns mode: ".toList ++ first.name ++ " wants ".toList ++
        modeName first.policy.mode ++ " and ".toList ++ s.name ++ " wants ".toList ++
        modeName s.policy.mode))
    | none =>
      match first.policy.mode with
      | .none => (w, none)
      | .writeResolvConf =>
        andThen (writeConf .writeResolvConf "resolv.conf".toList (resolvConf (flatten scopes)) w)
          (record t.runDir scopes)
      | .resolvconf => andThen (handToResolvconf false scopes w) (record t.runDir scopes)
      | .openresolv => andThen (handToResolvconf true scopes w) (record t.runDir scopes)
      | .resolved => record t.runDir scopes (handToResolved t.showsBare scopes w)
      | .dnsmasq =>
        andThen (writeConf .dnsmasq "dnsmasq configuration".toList (dnsmasqConf scopes) w)
          (record t.runDir scopes)
      | .unbound =>
        andThen (writeConf .unbound "unbound configuration".toList (unboundConf scopes) w)
          (record t.runDir scopes)

/-! ## What is held, and what was delivered -/

/-- Where a scope goes : to a record or to a link. -/
inductive Place
  | record (key : Text) | link (name : Text)
  deriving DecidableEq

/-- What a scope hands over : servers, and names that are searched or routed. -/
inductive Kind
  | server | name
  deriving DecidableEq

def Record.held (r : Record) : Kind → List Text
  | .server => (resolvRead r.text).servers
  | .name => (resolvRead r.text).search

def Link.held (l : Link) : Kind → List Text
  | .server => l.dns
  | .name => l.domain

def World.held (w : World) : Place → Kind → List Text
  | .record key, kind => (w.records key).elim [] fun r => r.held kind
  | .link name, kind => (w.links name).held kind

/-- The record or the link of a scope. -/
def placeOf (s : Scope) : Place :=
  if s.policy.mode = .resolved then .link (linkOf s.name) else .record (keyOf s.name)

/-- What a scope has for a resolver. A link spells a domain that is routed only, a record has it by
its suffix : openresolv says by `-p` that the record as a whole is asked for nothing else. -/
def handed (p : Policy) : Kind → List Text
  | .server => p.servers.map Server.text
  | .name => if p.mode = .resolved then namesOf p else p.domains.map Domain.suffix ++ p.search

/-- The resolvers hold what the scopes have and nothing else, each at its place, and the files name
the scopes. -/
structure Exact (w : World) (scopes : List Scope) : Prop where
  held : ∀ place kind text, text ∈ w.held place kind ↔
    ∃ s ∈ scopes, placeOf s = place ∧ text ∈ handed s.policy kind
  recorded : ∀ name, (w.files name).isSome ↔ ∃ s ∈ scopes, s.name = name

/-- Every delivery of a run succeeds and leaves exactly what it delivered. -/
def AllExact (t : Targets) : World → List (List Scope) → Prop
  | _, [] => True
  | w, scopes :: calls =>
    (deliver t scopes w).2 = none ∧ Exact (deliver t scopes w).1 scopes ∧
      AllExact t (deliver t scopes w).1 calls

/-- The modes that hand scopes to a resolver. -/
def HandsOver (s : Scope) : Prop := s.policy.mode ∈ [Mode.resolvconf, .openresolv, .resolved]

/-- Whether a list of a link is told nothing : one of names that are none, and one of servers where
the list is only shown. -/
def Skips (t : Targets) (s : Scope) (kind : Kind) : Prop :=
  s.policy.mode = .resolved ∧ handed s.policy kind = [] ∧ (kind = .server → t.showsBare)

instance (t : Targets) (s : Scope) (kind : Kind) : Decidable (Skips t s kind) :=
  inferInstanceAs (Decidable (_ ∧ _ ∧ (_ → _)))

/-- The last scope at a place that tells it of a kind. -/
def teller (t : Targets) (scopes : List Scope) (place : Place) (kind : Kind) : Option Scope :=
  scopes.reverse.find? fun s => placeOf s = place ∧ ¬Skips t s kind

/-- What a line of items says under a keyword : more than they are, where one of them breaks it. -/
def lineSays (keyword line : String) (items : List Text) : List Text :=
  argumentsOf keyword (directives words (unlines (listLine line items)))

def Kind.keyword : Kind → String
  | .server => "nameserver"
  | .name => "search"

/-- What a policy says of a kind where it is told : a link is told what it has, and a record has a
line of the search names, the servers and a line of the options, and nothing of the domains. -/
def said (p : Policy) (kind : Kind) : List Text :=
  if p.mode = .resolved then handed p kind
  else
    lineSays kind.keyword "search" p.search ++
      (if kind = .server then p.servers.map Server.text else []) ++
      lineSays kind.keyword "options" p.options

/-- What a delivery has to be by itself : scopes of one mode that can be rendered, the last that
tells a place of a kind saying what the scopes there have. -/
structure Fits (t : Targets) (scopes : List Scope) : Prop where
  agree : ∀ a ∈ scopes, ∀ b ∈ scopes, a.policy.mode = b.policy.mode
  rendered : ∀ s ∈ scopes, (recordText s).isSome ∧ (recordPath t.runDir s.name).length < pathMax
  whole : ∀ place kind, ∀ s ∈ teller t scopes place kind, ∀ text, text ∈ said s.policy kind ↔
    ∃ s' ∈ scopes, placeOf s' = place ∧ text ∈ handed s'.policy kind

/-- What has to be so of the state before a delivery : it tells every list that holds anything, and
names every file. -/
structure Covers (t : Targets) (w : World) (scopes : List Scope) : Prop where
  told : ∀ place kind, w.held place kind ≠ [] →
    ∃ s ∈ scopes, placeOf s = place ∧ ¬Skips t s kind
  named : ∀ name, (w.files name).isSome → ∃ s ∈ scopes, s.name = name

/-- What one delivery has to be after another : it tells again every list that a scope of the one
before has anything for, and names every scope of it. -/
structure Follows (t : Targets) (before scopes : List Scope) : Prop where
  told : ∀ s ∈ before, ∀ kind, handed s.policy kind ≠ [] →
    ∃ s' ∈ scopes, placeOf s' = placeOf s ∧ ¬Skips t s' kind
  named : ∀ s ∈ before, ∃ s' ∈ scopes, s'.name = s.name

/-! ## What a blob is read as -/

theorem directives_unlines_cons (split : Text → List Text) (line : Text) (lines : List Text) :
    directives split (unlines (line :: lines)) =
      directives split line ++ directives split (unlines lines) := by
  have hcons : unlines (line :: lines) = line ++ '\n' :: unlines lines := by simp [unlines]
  unfold directives
  rw [hcons, List.splitOn, List.splitOnP_append_cons line (unlines lines) (by simp),
    List.filter_append, List.map_append]
  rfl

theorem directives_unlines_append (split : Text → List Text) (a b : List Text) :
    directives split (unlines (a ++ b)) =
      directives split (unlines a) ++ directives split (unlines b) := by
  induction a with
  | nil => rfl
  | cons line a ih =>
    rw [List.cons_append, directives_unlines_cons, ih, directives_unlines_cons, List.append_assoc]

theorem directives_servers (servers : List Server) :
    directives words (unlines (servers.map fun s => "nameserver ".toList ++ s.text)) =
      servers.map fun s => ["nameserver".toList, s.text] := by
  have hserver : ∀ s : Server, _ := server_line "nameserver".toList
    (show _ = 'n' :: "ameserver".toList from rfl) (by decide) (plain_of_all rfl)
  induction servers with
  | nil => rfl
  | cons s servers ih =>
    have hone : directives words (unlines ["nameserver ".toList ++ s.text]) =
        [["nameserver".toList, s.text]] := by
      rw [directives_unlines words fun l hl => by
        rw [List.mem_singleton.1 hl]
        exact (hserver s).1]
      rw [List.filter_cons_of_pos (by simpa using (hserver s).2.1), List.filter_nil,
        List.map_singleton]
      exact congrArg (fun ws => [ws]) (hserver s).2.2
    have happend := directives_unlines_append words ["nameserver ".toList ++ s.text]
      (servers.map fun s => "nameserver ".toList ++ s.text)
    rw [List.singleton_append] at happend
    rw [List.map_cons, happend, hone, ih, List.map_cons, List.singleton_append]

/-- A record says the lines of its blob. -/
theorem held_blob {p : Policy} (hmode : p.mode ≠ .resolved) (isPrivate : Bool) (kind : Kind) :
    (Record.mk isPrivate (unlines (blobLines p))).held kind = said p kind := by
  have hread : ∀ keyword, argumentsOf keyword (directives words (unlines (blobLines p))) =
      lineSays keyword "search" p.search ++
        (if "nameserver".toList = keyword.toList then p.servers.map Server.text else []) ++
        lineSays keyword "options" p.options := by
    intro keyword
    unfold blobLines
    rw [directives_unlines_append, directives_unlines_append, argumentsOf_append,
      argumentsOf_append, directives_servers, argumentsOf_servers]
    rfl
  rw [said, if_neg hmode]
  cases kind with
  | server => exact hread "nameserver"
  | name => exact hread "search"

theorem lineSays_search (keyword : String) {items : List Text} (h : ∀ i ∈ items, Word i) :
    lineSays keyword "search" items = if "search".toList = keyword.toList then items else [] := by
  obtain ⟨hlines, hread⟩ := search_directives h
  rw [lineSays, directives_unlines words hlines, hread, argumentsOf_line]

theorem lineSays_options (keyword : String) {items : List Text} (h : ∀ i ∈ items, Word i) :
    lineSays keyword "options" items = if "options".toList = keyword.toList then items else [] := by
  obtain ⟨hlines, hread⟩ := options_directives h
  rw [lineSays, directives_unlines words hlines, hread, argumentsOf_line]

/-- Words say themselves. -/
theorem said_of_words {p : Policy} (hmode : p.mode ≠ .resolved) (hsearch : ∀ x ∈ p.search, Word x)
    (hoptions : ∀ x ∈ p.options, Word x) (kind : Kind) :
    said p kind = if kind = .server then p.servers.map Server.text else p.search := by
  rw [said, if_neg hmode, lineSays_search _ hsearch, lineSays_options _ hoptions]
  cases kind with
  | server => simp [Kind.keyword]
  | name => simp [Kind.keyword]

/-! ## The scopes handed over -/

/-- What handing scopes over does to what is held : the last that tells a place of a kind has it. -/
structure Handed (t : Targets) (scopes : List Scope) (w w' : World) : Prop where
  held : ∀ place kind, w'.held place kind =
    ((teller t scopes place kind).map fun s => said s.policy kind).getD (w.held place kind)
  files : w'.files = w.files

variable {t : Targets}

theorem teller_cons (s : Scope) (rest : List Scope) (place : Place) (kind : Kind) :
    teller t (s :: rest) place kind = (teller t rest place kind).or
      (if placeOf s = place ∧ ¬Skips t s kind then some s else none) := by
  unfold teller
  rw [List.reverse_cons, List.find?_append]
  by_cases htells : placeOf s = place ∧ ¬Skips t s kind <;> simp [htells]

theorem teller_eq_none {scopes : List Scope} {place : Place} {kind : Kind} :
    teller t scopes place kind = none ↔ ∀ s ∈ scopes, placeOf s = place → Skips t s kind := by
  unfold teller
  simp [List.find?_eq_none]

theorem Handed.nil (w : World) : Handed t [] w w :=
  ⟨fun _ _ => rfl, rfl⟩

theorem Handed.cons {s : Scope} {rest : List Scope} {w w₁ w₂ : World}
    (hfirst : ∀ place kind, w₁.held place kind =
      if placeOf s = place ∧ ¬Skips t s kind then said s.policy kind else w.held place kind)
    (hfiles : w₁.files = w.files) (hrest : Handed t rest w₁ w₂) : Handed t (s :: rest) w w₂ where
  held place kind := by
    rw [hrest.held, hfirst, teller_cons]
    cases teller t rest place kind with
    | some s' => rfl
    | none => by_cases htells : placeOf s = place ∧ ¬Skips t s kind <;> simp [htells]
  files := hrest.files.trans hfiles

theorem held_add {s : Scope} (w : World) (isPrivate : Bool) (hmode : s.policy.mode ≠ .resolved)
    (place : Place) (kind : Kind) :
    (w.add (keyOf s.name) ⟨isPrivate, unlines (blobLines s.policy)⟩).held place kind =
      if placeOf s = place ∧ ¬Skips t s kind then said s.policy kind else w.held place kind := by
  have hskips : ¬Skips t s kind := fun h => hmode h.1
  rw [placeOf, if_neg hmode]
  cases place with
  | link name => rw [if_neg fun h => by cases h.1]; rfl
  | record key =>
    by_cases hkey : keyOf s.name = key
    · subst hkey
      rw [if_pos ⟨rfl, hskips⟩, ← held_blob hmode isPrivate]
      simp [World.held, World.add]
    · rw [if_neg fun h => hkey (Place.record.inj h.1)]
      simp only [World.held, World.add, Function.update_of_ne (Ne.symm hkey)]

theorem held_tell {s : Scope} (w : World) (hmode : s.policy.mode = .resolved) (place : Place)
    (kind : Kind) :
    (let told := w.tellDns t.showsBare (linkOf s.name) (s.policy.servers.map Server.text)
      if namesOf s.policy = [] then told
      else told.tellDomain (linkOf s.name) (namesOf s.policy)).held place kind =
      if placeOf s = place ∧ ¬Skips t s kind then said s.policy kind else w.held place kind := by
  rw [placeOf, if_pos hmode, said, if_pos hmode]
  unfold World.tellDns World.tellDomain
  cases place with
  | record key =>
    have helsewhere : ¬(Place.link (linkOf s.name) = .record key ∧ ¬Skips t s kind) := fun h => by
      cases h.1
    rw [if_neg helsewhere]
    split_ifs <;> rfl
  | link name =>
    by_cases hname : linkOf s.name = name
    · subst hname
      cases kind with
      | server =>
        by_cases hbare : s.policy.servers.map Server.text = [] ∧ t.showsBare = true
        · have hskips : Skips t s .server := ⟨hmode, hbare.1, fun _ => hbare.2⟩
          rw [if_pos hbare, if_neg (not_and_not_right.2 fun _ => hskips)]
          split_ifs <;> simp [World.held, Link.held]
        · have htells : ¬Skips t s .server := fun h => hbare ⟨h.2.1, h.2.2 rfl⟩
          rw [if_neg hbare, if_pos (And.intro rfl htells)]
          split_ifs <;> simp [World.held, Link.held, handed]
      | name =>
        have hhanded : handed s.policy .name = namesOf s.policy := if_pos hmode
        by_cases hnames : namesOf s.policy = []
        · have hskips : Skips t s .name := ⟨hmode, hhanded.trans hnames, fun h => by cases h⟩
          rw [if_pos hnames, if_neg (not_and_not_right.2 fun _ => hskips)]
          split_ifs <;> simp [World.held, Link.held]
        · have htells : ¬Skips t s .name := fun h => hnames (hhanded.symm.trans h.2.1)
          rw [if_neg hnames, if_pos (And.intro rfl htells), hhanded]
          simp [World.held, Link.held]
    · have helsewhere : ¬(Place.link (linkOf s.name) = .link name ∧ ¬Skips t s kind) := fun h =>
        hname (Place.link.inj h.1)
      rw [if_neg helsewhere]
      split_ifs <;> simp [World.held, Function.update_of_ne (Ne.symm hname)]

theorem blob_of_recordText {s : Scope} (h : (recordText s).isSome) :
    resolvconfBlob s.policy = some (unlines (blobLines s.policy)) := by
  obtain ⟨text, htext⟩ := Option.isSome_iff_exists.1 h
  obtain ⟨blob, hblob, -⟩ := Option.bind_eq_some_iff.1 htext
  rw [hblob]
  unfold resolvconfBlob finish at hblob
  split_ifs at hblob
  exact hblob.symm

theorem handToResolvconf_handed (openresolv : Bool) :
    ∀ {scopes : List Scope} (w : World), (∀ s ∈ scopes, s.policy.mode ≠ .resolved) →
      (∀ s ∈ scopes, (recordText s).isSome) →
      ∃ w', handToResolvconf openresolv scopes w = (w', none) ∧ Handed t scopes w w'
  | [], w, _, _ => ⟨w, rfl, Handed.nil w⟩
  | s :: rest, w, hmode, hrendered => by
    obtain ⟨hmode, hmodes⟩ := List.forall_mem_cons.1 hmode
    obtain ⟨hblob, hrendered⟩ := List.forall_mem_cons.1 hrendered
    obtain ⟨w', heq, hrest⟩ := handToResolvconf_handed openresolv
      (w.add (keyOf s.name)
        ⟨openresolv && s.policy.domains.any (·.exclusive), unlines (blobLines s.policy)⟩)
      hmodes hrendered
    refine ⟨w', ?_, Handed.cons (held_add w _ hmode) rfl hrest⟩
    rw [handToResolvconf, blob_of_recordText hblob]
    exact heq

theorem handToResolved_handed :
    ∀ {scopes : List Scope} (w : World), (∀ s ∈ scopes, s.policy.mode = .resolved) →
      Handed t scopes w (handToResolved t.showsBare scopes w)
  | [], w, _ => Handed.nil w
  | s :: rest, w, hmode => by
    obtain ⟨hmode, hmodes⟩ := List.forall_mem_cons.1 hmode
    refine Handed.cons (held_tell w hmode) ?_ (handToResolved_handed _ hmodes)
    unfold World.tellDns World.tellDomain
    split_ifs <;> rfl

/-- What is recorded could be rendered. -/
theorem rendered_of_record {runDir : Text} : ∀ {scopes : List Scope} {w : World},
    (record runDir scopes w).2 = none →
      ∀ s ∈ scopes, (recordText s).isSome ∧ (recordPath runDir s.name).length < pathMax
  | [], _, _ => fun _ hs => absurd hs List.not_mem_nil
  | s :: rest, w, h => by
    rw [record] at h
    split_ifs at h with hpath
    cases hblob : resolvconfBlob s.policy with
    | none =>
      rw [hblob] at h
      cases h
    | some blob =>
      cases htext : recordText s with
      | none =>
        rw [hblob, htext] at h
        cases h
      | some text =>
        rw [hblob, htext] at h
        exact List.forall_mem_cons.2 ⟨⟨by rw [htext]; rfl, not_le.1 hpath⟩, rendered_of_record h⟩

theorem record_names {runDir : Text} :
    ∀ {scopes : List Scope} (w : World),
      (∀ s ∈ scopes, (recordText s).isSome ∧ (recordPath runDir s.name).length < pathMax) →
      ∃ w', record runDir scopes w = (w', none) ∧ w'.held = w.held ∧
        ∀ name, (w'.files name).isSome ↔ (w.files name).isSome ∨ ∃ s ∈ scopes, s.name = name
  | [], w, _ => ⟨w, rfl, rfl, by simp⟩
  | s :: rest, w, h => by
    obtain ⟨⟨htext, hpath⟩, hrest⟩ := List.forall_mem_cons.1 h
    obtain ⟨text, heq⟩ := Option.isSome_iff_exists.1 htext
    obtain ⟨w', hrun, hheld, hnames⟩ := record_names
      { w with files := Function.update w.files s.name (some text) } hrest
    refine ⟨w', ?_, hheld.trans ?_, fun name => ?_⟩
    · rw [record, if_neg (by omega), blob_of_recordText htext, heq]
      exact hrun
    · funext place kind
      cases place <;> rfl
    · rw [hnames]
      by_cases hname : name = s.name
      · simp [hname]
      · simp [Function.update_of_ne hname, Ne.symm hname]

/-! ## One delivery -/

/-- What succeeds is of one mode and could be rendered. -/
theorem rendered_of_deliver {scopes : List Scope} (hmodes : ∀ s ∈ scopes, HandsOver s) {w : World}
    (h : (deliver t scopes w).2 = none) :
    (∀ a ∈ scopes, ∀ b ∈ scopes, a.policy.mode = b.policy.mode) ∧
      ∀ s ∈ scopes, (recordText s).isSome ∧ (recordPath t.runDir s.name).length < pathMax := by
  cases scopes with
  | nil => exact ⟨fun _ ha => absurd ha List.not_mem_nil, fun _ hs => absurd hs List.not_mem_nil⟩
  | cons first rest =>
    rw [deliver] at h
    cases hfind : rest.find? fun s => s.policy.mode ≠ first.policy.mode with
    | some s =>
      rw [hfind] at h
      cases h
    | none =>
      rw [hfind] at h
      have hsame : ∀ s ∈ first :: rest, s.policy.mode = first.policy.mode :=
        List.forall_mem_cons.2 ⟨rfl, by simpa using List.find?_eq_none.1 hfind⟩
      refine ⟨fun a ha b hb => (hsame a ha).trans (hsame b hb).symm, ?_⟩
      have hafter : ∀ result : World × Option Text,
          (andThen result (record t.runDir (first :: rest))).2 = none →
            ∃ w, (record t.runDir (first :: rest) w).2 = none := by
        intro result hnone
        by_cases hresult : result.2 = none
        · rw [andThen, if_pos hresult] at hnone
          exact ⟨_, hnone⟩
        · rw [andThen, if_neg hresult] at hnone
          exact absurd hnone hresult
      have hmode : first.policy.mode ∈ _ := hmodes first List.mem_cons_self
      simp only [List.mem_cons, List.not_mem_nil, or_false] at hmode
      dsimp only at h
      rcases hmode with hmode | hmode | hmode
      · rw [hmode] at h
        obtain ⟨w', hrecord⟩ := hafter _ h
        exact rendered_of_record hrecord
      · rw [hmode] at h
        obtain ⟨w', hrecord⟩ := hafter _ h
        exact rendered_of_record hrecord
      · rw [hmode] at h
        exact rendered_of_record h

/-- A delivery of one mode that can be rendered succeeds, hands its scopes over and names them. -/
theorem deliver_handed {scopes : List Scope} (hmodes : ∀ s ∈ scopes, HandsOver s)
    (hagree : ∀ a ∈ scopes, ∀ b ∈ scopes, a.policy.mode = b.policy.mode)
    (hrendered :
      ∀ s ∈ scopes, (recordText s).isSome ∧ (recordPath t.runDir s.name).length < pathMax)
    (w : World) :
    ∃ w₁ w', Handed t scopes w w₁ ∧ deliver t scopes w = (w', none) ∧ w'.held = w₁.held ∧
      ∀ name, (w'.files name).isSome ↔ (w.files name).isSome ∨ ∃ s ∈ scopes, s.name = name := by
  cases scopes with
  | nil => exact ⟨w, w, Handed.nil w, rfl, rfl, by simp⟩
  | cons first rest =>
    have hsame : ∀ s ∈ first :: rest, s.policy.mode = first.policy.mode := fun s hs =>
      hagree s hs first List.mem_cons_self
    have hfind : (rest.find? fun s => s.policy.mode ≠ first.policy.mode) = none := by
      rw [List.find?_eq_none]
      intro s hs
      simpa using hsame s (List.mem_cons_of_mem _ hs)
    have hrecords : ∀ openresolv, first.policy.mode ≠ .resolved →
        ∃ w₁ w', Handed t (first :: rest) w w₁ ∧
          andThen (handToResolvconf openresolv (first :: rest) w)
            (record t.runDir (first :: rest)) = (w', none) ∧ w'.held = w₁.held ∧
          ∀ name, (w'.files name).isSome ↔
            (w.files name).isSome ∨ ∃ s ∈ first :: rest, s.name = name := by
      intro openresolv hne
      obtain ⟨w₁, heq, hhanded⟩ := @handToResolvconf_handed t openresolv (first :: rest) w
        (fun s hs => by rw [hsame s hs]; exact hne) fun s hs => (hrendered s hs).1
      obtain ⟨w', hrun, hheld, hnames⟩ := record_names w₁ hrendered
      refine ⟨w₁, w', hhanded, ?_, hheld, ?_⟩
      · rw [heq, andThen, if_pos rfl]
        exact hrun
      · rwa [hhanded.files] at hnames
    have hmode : first.policy.mode ∈ _ := hmodes first List.mem_cons_self
    simp only [List.mem_cons, List.not_mem_nil, or_false] at hmode
    rw [deliver, hfind]
    dsimp only
    rcases hmode with hmode | hmode | hmode
    · rw [hmode]
      exact hrecords false (by rw [hmode]; decide)
    · rw [hmode]
      exact hrecords true (by rw [hmode]; decide)
    · rw [hmode]
      have hhanded := @handToResolved_handed t (first :: rest) w fun s hs =>
        (hsame s hs).trans hmode
      obtain ⟨w', hrun, hheld, hnames⟩ := record_names
        (handToResolved t.showsBare (first :: rest) w) hrendered
      refine ⟨_, w', hhanded, hrun, hheld, ?_⟩
      rwa [hhanded.files] at hnames

/-- A delivery succeeds and leaves exactly what it delivered where the scopes fit by themselves and
cover what was there before ; and only there. -/
theorem deliver_exact_iff {scopes : List Scope} (hmodes : ∀ s ∈ scopes, HandsOver s) (w : World) :
    (deliver t scopes w).2 = none ∧ Exact (deliver t scopes w).1 scopes ↔
      Fits t scopes ∧ Covers t w scopes := by
  constructor
  · rintro ⟨hnone, hexact⟩
    obtain ⟨hagree, hrendered⟩ := rendered_of_deliver hmodes hnone
    obtain ⟨w₁, w', hhanded, hrun, hheld, hnames⟩ := deliver_handed hmodes hagree hrendered w
    rw [hrun] at hexact
    have hleft : ∀ place kind text, text ∈ w₁.held place kind ↔
        ∃ s ∈ scopes, placeOf s = place ∧ text ∈ handed s.policy kind := by
      intro place kind text
      rw [← hheld]
      exact hexact.held place kind text
    refine ⟨⟨hagree, hrendered, fun place kind s hs text => ?_⟩, fun place kind hne => ?_,
      fun name hname => (hexact.recorded name).1 ((hnames name).2 (.inl hname))⟩
    · rw [← hleft, hhanded.held, Option.mem_def.1 hs]
      rfl
    · by_contra huntold
      push Not at huntold
      have hnone := teller_eq_none.2 huntold
      obtain ⟨text, htext⟩ := List.exists_mem_of_ne_nil _ hne
      have hthere : text ∈ w₁.held place kind := by
        rw [hhanded.held, hnone]
        exact htext
      obtain ⟨s, hs, hplace, hgiven⟩ := (hleft place kind text).1 hthere
      rw [(huntold s hs hplace).2.1] at hgiven
      cases hgiven
  · rintro ⟨hfits, hcovers⟩
    obtain ⟨w₁, w', hhanded, hrun, hheld, hnames⟩ :=
      deliver_handed hmodes hfits.agree hfits.rendered w
    rw [hrun]
    refine ⟨rfl, fun place kind text => ?_, fun name => ?_⟩
    · rw [hheld, hhanded.held]
      cases hteller : teller t scopes place kind with
      | some s => exact hfits.whole place kind s hteller text
      | none =>
        have huntold := teller_eq_none.1 hteller
        have hempty : w.held place kind = [] := by
          by_contra hne
          obtain ⟨s, hs, hplace, htells⟩ := hcovers.told place kind hne
          exact htells (huntold s hs hplace)
        refine iff_of_false (by simp [hempty]) ?_
        rintro ⟨s, hs, hplace, hgiven⟩
        rw [(huntold s hs hplace).2.1] at hgiven
        cases hgiven
    · rw [hnames]
      exact ⟨fun h => h.elim (hcovers.named name) id, .inr⟩

/-- Scopes of one mode that can be rendered, each at a place of its own, fit where a record's names
and options are words and every domain of it is a search name. -/
theorem fits_of_alone {scopes : List Scope}
    (hagree : ∀ a ∈ scopes, ∀ b ∈ scopes, a.policy.mode = b.policy.mode)
    (hrendered :
      ∀ s ∈ scopes, (recordText s).isSome ∧ (recordPath t.runDir s.name).length < pathMax)
    (halone : scopes.Pairwise fun a b => placeOf a ≠ placeOf b)
    (hwords : ∀ s ∈ scopes, s.policy.mode ≠ .resolved → (∀ x ∈ s.policy.search, Word x) ∧
      (∀ x ∈ s.policy.options, Word x) ∧ ∀ d ∈ s.policy.domains, d.suffix ∈ s.policy.search) :
    Fits t scopes := by
  refine ⟨hagree, hrendered, fun place kind s hs text => ?_⟩
  have hmem : s ∈ scopes := List.mem_reverse.1 (List.mem_of_find?_eq_some hs)
  have htells := List.find?_some hs
  obtain ⟨rfl, -⟩ := of_decide_eq_true htells
  have hsaid : text ∈ said s.policy kind ↔ text ∈ handed s.policy kind := by
    by_cases hmode : s.policy.mode = .resolved
    · rw [said, if_pos hmode]
    · obtain ⟨hsearch, hoptions, hrouted⟩ := hwords s hmem hmode
      rw [said_of_words hmode hsearch hoptions]
      cases kind with
      | server => rfl
      | name =>
        have hsuffix : ∀ d ∈ s.policy.domains, d.suffix = text → text ∈ s.policy.search :=
          fun d hd heq => heq ▸ hrouted d hd
        simpa [handed, hmode] using hsuffix
  rw [hsaid]
  refine ⟨fun h => ⟨s, hmem, rfl, h⟩, ?_⟩
  rintro ⟨s', hs', hplace, hgiven⟩
  have hsame : s' = s := by
    by_contra hne
    have : Std.Symm fun a b : Scope => placeOf a ≠ placeOf b := ⟨fun _ _ h => h.symm⟩
    exact halone.forall hs' hmem hne hplace
  rwa [hsame] at hgiven

/-! ## A run of deliveries -/

theorem covers_iff_follows {w : World} {before scopes : List Scope} (h : Exact w before) :
    Covers t w scopes ↔ Follows t before scopes := by
  constructor
  · intro hcovers
    refine ⟨fun s hs kind hne => hcovers.told _ kind fun hnil => ?_, fun s hs => ?_⟩
    · obtain ⟨text, htext⟩ := List.exists_mem_of_ne_nil _ hne
      have hthere := (h.held (placeOf s) kind text).2 ⟨s, hs, rfl, htext⟩
      rw [hnil] at hthere
      cases hthere
    · exact hcovers.named s.name ((h.recorded s.name).2 ⟨s, hs, rfl⟩)
  · intro hfollows
    refine ⟨fun place kind hne => ?_, fun name hname => ?_⟩
    · obtain ⟨text, htext⟩ := List.exists_mem_of_ne_nil _ hne
      obtain ⟨s, hs, rfl, hgiven⟩ := (h.held place kind text).1 htext
      exact hfollows.told s hs kind (List.ne_nil_of_mem hgiven)
    · obtain ⟨s, hs, rfl⟩ := (h.recorded name).1 hname
      exact hfollows.named s hs

/-- An empty world hands over nothing, exactly. -/
theorem exact_empty : Exact World.empty [] := by
  refine ⟨fun place kind text => ?_, fun name => ?_⟩
  · cases place <;> cases kind <;> simp [World.held, World.empty, Link.held]
  · simp [World.empty]

/-- The run lemma : every delivery of a run is exact just where each fits and follows the last. -/
theorem allExact_iff : ∀ {calls : List (List Scope)} {w : World} {before : List Scope},
    (∀ scopes ∈ calls, ∀ s ∈ scopes, HandsOver s) → Exact w before →
      (AllExact t w calls ↔
        (∀ scopes ∈ calls, Fits t scopes) ∧ (before :: calls).IsChain (Follows t))
  | [], _, _, _, _ => by simp [AllExact]
  | scopes :: calls, w, before, hmodes, hexact => by
    obtain ⟨hmode, hmodes⟩ := List.forall_mem_cons.1 hmodes
    rw [AllExact, ← and_assoc, deliver_exact_iff hmode, covers_iff_follows hexact,
      List.isChain_cons_cons, List.forall_mem_cons]
    constructor
    · rintro ⟨⟨hfit, hfollows⟩, hlater⟩
      obtain ⟨-, hleft⟩ := (deliver_exact_iff hmode w).2
        ⟨hfit, (covers_iff_follows hexact).2 hfollows⟩
      obtain ⟨hfits, hchain⟩ := (allExact_iff hmodes hleft).1 hlater
      exact ⟨⟨hfit, hfits⟩, hfollows, hchain⟩
    · rintro ⟨⟨hfit, hfits⟩, hfollows, hchain⟩
      obtain ⟨-, hleft⟩ := (deliver_exact_iff hmode w).2
        ⟨hfit, (covers_iff_follows hexact).2 hfollows⟩
      exact ⟨⟨hfit, hfollows⟩, (allExact_iff hmodes hleft).2 ⟨hfits, hchain⟩⟩

/-- **A resolver is left with exactly the delivered scopes.** Every delivery of a run does so where
each fits by itself, and tells again every list that the one before it filled and names every scope
of it ; and only there. -/
theorem deliveries_exact_iff (t : Targets) (calls : List (List Scope))
    (hmodes : ∀ scopes ∈ calls, ∀ s ∈ scopes, HandsOver s) :
    AllExact t World.empty calls ↔
      (∀ scopes ∈ calls, Fits t scopes) ∧ ([] :: calls).IsChain (Follows t) :=
  allExact_iff hmodes exact_empty

/-! ### A tunnel that goes away -/

def oneServer (name : Text) (mode : Mode) (octets : Inet.Groups 4 256) : Scope :=
  ⟨name, { mode := mode, servers := [⟨.v4 octets, none, []⟩] }⟩

def tunnelScope : Scope := oneServer "tun0".toList .resolvconf ⟨[10, 8, 0, 1], rfl, by decide⟩

def wiredScope : Scope := oneServer "eth0".toList .resolvconf ⟨[192, 168, 1, 1], rfl, by decide⟩

def host : Targets := ⟨"/run/netcfgd".toList, false⟩

/-- A tunnel that is asked for its own domain and nothing else, and the network of the house. -/
def office (octets : Inet.Groups 4 256) : List Scope :=
  [⟨globalScope,
      { mode := .openresolv
        servers := [⟨.v4 ⟨[192, 168, 1, 1], rfl, by decide⟩, none, []⟩]
        search := ["home.arpa".toList]
        options := ["edns0".toList] }⟩,
    ⟨"wg0".toList,
      { mode := .openresolv
        servers := [⟨.v4 octets, none, []⟩]
        search := ["corp.example".toList]
        domains := [⟨"corp.example".toList, true⟩] }⟩]

theorem office_fits (octets : Inet.Groups 4 256)
    (hrendered : ∀ s ∈ office octets,
      (recordText s).isSome ∧ (recordPath host.runDir s.name).length < pathMax) :
    Fits host (office octets) := by
  refine fits_of_alone ?_ hrendered ?_ ?_
  · simp [office]
  · have hkeys : keyOf globalScope ≠ keyOf "wg0".toList := by decide +kernel
    simpa [office, placeOf] using hkeys
  · simp [office, Word, Resolver.isBlank]

/-- A tunnel whose server changes : each delivery leaves the two records as they are delivered. -/
theorem office_moves :
    AllExact host World.empty [office ⟨[10, 8, 0, 1], rfl, by decide⟩,
      office ⟨[10, 8, 0, 2], rfl, by decide⟩] := by
  refine (deliveries_exact_iff host _ ?_).2 ⟨?_, ?_⟩
  · simp [office, HandsOver]
  · simp only [List.forall_mem_cons]
    exact ⟨office_fits _ (by decide +kernel), office_fits _ (by decide +kernel), by simp⟩
  · simp only [List.isChain_cons_cons, List.isChain_singleton, and_true]
    refine ⟨⟨by simp, by simp⟩, fun s hs kind _ => ?_, by simp [office]⟩
    simp only [office, List.mem_cons, List.not_mem_nil, or_false] at hs
    rcases hs with rfl | rfl
    · exact ⟨_, List.mem_cons_self, rfl, fun h => by cases h.1⟩
    · exact ⟨_, List.mem_cons_of_mem _ List.mem_cons_self, rfl, fun h => by cases h.1⟩

/-- The servers of a tunnel that has gone stay with `resolvconf`. -/
theorem tunnel_stays :
    ¬∀ (t : Targets) (calls : List (List Scope)), (∀ scopes ∈ calls, ∀ s ∈ scopes, HandsOver s) →
      AllExact t World.empty calls := by
  intro h
  have hmodes :
      ∀ scopes ∈ [[tunnelScope, wiredScope], [wiredScope]], ∀ s ∈ scopes, HandsOver s := by
    intro scopes hscopes
    rcases List.mem_pair.1 hscopes with rfl | rfl <;>
      simp [HandsOver, tunnelScope, wiredScope, oneServer]
  obtain ⟨-, -, -, hexact, -⟩ := h host _ hmodes
  obtain ⟨s, hs, hplace, -⟩ := (hexact.held (.record "tun0.netcfgd".toList) .server
    "10.8.0.1".toList).1 (by decide +kernel)
  obtain rfl := List.mem_singleton.1 hs
  exact absurd hplace (by decide +kernel)

end Netcfgd.DnsDeliver
