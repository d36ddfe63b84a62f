import Netcfgd.KeyedList
import Netcfgd.Seen

/-!
# The hosts written down

`ncfg_seen_record` of `src/host/seen.c`, what it remembers of what it wrote, and what the store has
of it. A host is written when it is new, when what is said of it changes and once a day
(`consider`) ; the recorder remembers what it last wrote under a key, for so many keys
(`heldKeep`).

With a store that answers every write, a pass is what `visits` makes of the keys and values it
gives (`recordFrom_answers`) : an entry leaves what it says under its key, and a key new to a full
table takes the place of the one written longest ago (`find_visit`, `displaced`). So a pass leaves a
key it does not come by as it was, unless it made room (`find_visits`), and the next pass is quiet
where every host of it stays (`visits_quiet_iff`), as with room for all it does (`Room.stays`). What
the store has is what the entries say in their order (`visits_follows`). The main result is
`record_quiet_iff`.
-/

namespace Netcfgd.Seen

open Netcfgd.Json (ascii asciis hexDigit)
open KeyedList (Keyed find bump)

/-! ## What is observed -/

/-- `ncfg_observed_lease_t`, as the recorder reads it. -/
structure Lease where
  mac : Bytes
  address : Option Bytes
  hostname : Bytes := []

/-- `ncfg_observed_backend_t`, as the recorder reads it : the stations of its access point and the
leases of its DHCP server. -/
structure Backend where
  interface : Bytes
  associated : List Bytes := []
  leases : List Lease := []

/-- A host on an interface, and what is said of it. -/
structure Entry where
  interface : Bytes
  mac : Bytes
  text : Bytes

/-- The value of a lease : `lease ADDRESS [NAME]`. -/
def leaseText (address hostname : Bytes) : Bytes :=
  asciis "lease " ++ address ++ (if hostname = [] then [] else [ascii ' ']) ++ hostname

/-- The entry of a lease, if it has a hardware address and an address. -/
def Lease.entry (interface : Bytes) (lease : Lease) : Option Entry :=
  if lease.mac = [] then none
  else lease.address.map fun address => ⟨interface, lease.mac, leaseText address lease.hostname⟩

/-- What a backend says, its stations before its leases. -/
def Backend.entries (backend : Backend) : List Entry :=
  (backend.associated.map fun mac => ⟨backend.interface, mac, asciis "station"⟩) ++
    backend.leases.filterMap (Lease.entry backend.interface)

/-- The entries of an observation. -/
def entriesOf (observed : List Backend) : List Entry := observed.flatMap Backend.entries

/-- The value that is compared and written, in its room. -/
def Entry.value (e : Entry) : Bytes := e.text.take valueMax

/-- What a key may be spelled with. -/
def keyChar (c : UInt8) : Bool :=
  (ascii 'a' ≤ c && c ≤ ascii 'z') || (ascii '0' ≤ c && c ≤ ascii '9') || c = ascii '.' ||
    c = ascii '_' || c = ascii '/' || c = ascii '-'

/-- How a character is spelled in a key : a colon as a dash, hexadecimal digits small. -/
def keySpelling (c : UInt8) : UInt8 :=
  if c = ascii ':' then ascii '-'
  else if ascii 'A' ≤ c ∧ c ≤ ascii 'F' then c - ascii 'A' + ascii 'a'
  else c

/-- `ncfg_seen_key`. -/
def seenKey (interface mac : Bytes) : Option Bytes :=
  if interface = [] ∨ mac = [] then none
  else
    let wrote := asciis "seen/" ++ interface ++ [ascii '/'] ++ mac
    if keyMax < wrote.length then none
    else if (wrote.map keySpelling).all keyChar then some (wrote.map keySpelling)
    else none

def Entry.key (e : Entry) : Option Bytes := seenKey e.interface e.mac

/-! ## A record written -/

/-- `ncfg_fuzznet_escape`, into `escaped`. -/
def escape (value : Bytes) : Option Bytes :=
  let text := value.flatMap fun c =>
    if Pages.escapes c then [ascii '%', hexDigit (c.toNat / 16), hexDigit (c.toNat % 16)] else [c]
  if text.length < 3 * valueMax + 1 then some text else none

/-- `add record KEY VALUE`. -/
def recordLine (key escaped : Bytes) : Bytes :=
  asciis "add record " ++ key ++ [ascii ' '] ++ escaped ++ [ascii '\n']

/-- The room of `line` : a key, an escaped value and 32 bytes more. -/
def lineRoom : ℕ := keyMax + (3 * valueMax + 1) + 32

/-- The room of `reply`. -/
def answerRoom : ℕ := 256

/-- What becomes of a record : nobody answers, or it is refused. -/
inductive Added where
  | kept
  | silent (why : Bytes)
  | refused (why : Bytes)

/-- `add_record`. Only `ok` alone says that a record was kept. -/
def addRecord (face : Face) (key value : Bytes) : Added :=
  match escape value with
  | none => .refused (asciis "the value for " ++ key ++ asciis " is too long to write")
  | some escaped =>
    if lineRoom ≤ (recordLine key escaped).length then
      .refused (asciis "the record for " ++ key ++ asciis " is too long to send")
    else
      match ask face (recordLine key escaped) answerRoom with
      | .failed true why => .silent why
      | .failed false why => .refused why
      | .reply reply =>
        if reply = asciis "ok" then .kept
        else .refused (asciis "fuzznetd refused " ++ key ++ asciis ": " ++ reply)

/-! ## What is remembered -/

/-- `held_t`. -/
structure Held where
  key : Bytes
  value : Bytes
  written : ℕ
  refused : Bool

/-- `ncfg_seen_t`, as far as it writes. -/
structure Recorder where
  held : List Held := []
  silentUntil : ℕ := 0
  saidSilent : Bool := false

/-- Where the entry written longest ago stands, the first of them. -/
def oldest (held : List Held) : ℕ :=
  held.findIdx fun one => held.all fun other => one.written ≤ other.written

/-- An entry that is written again. -/
def Held.renewed (new one : Held) : Held :=
  { one with value := new.value, written := new.written, refused := new.refused }

/-- `held_keep`. Full, the entry written longest ago makes room. -/
def heldKeep (held : List Held) (new : Held) : List Held :=
  if (find Held.key new.key held).isNone ∧ heldMax ≤ held.length then held.set (oldest held) new
  else bump Held.key new new.renewed held

/-- Whether what is remembered of a host is what is said, and is not due. -/
def fresh (one : Option Held) (value : Bytes) (now : ℕ) : Bool :=
  match one with
  | none => false
  | some one => one.value = value &&
      now < one.written + (if one.refused then retrySeconds else refreshSeconds)

/-! ## A pass -/

/-- What a pass says in the log. -/
inductive Said where
  | unserved
  | silent (why : Bytes)
  | warning (why : Bytes)
  | answers
deriving DecidableEq

/-- What an entry or a pass comes to : the records written, and whether the pass asks no further. -/
structure Outcome where
  recorder : Recorder
  wrote : List (Bytes × Bytes) := []
  stop : Bool := false
  said : List Said := []

/-- Nobody answered : nothing is asked for a while, and it is said once. -/
def Recorder.silent (r : Recorder) (now : ℕ) (what : Said) : Outcome where
  recorder := { r with silentUntil := now + retrySeconds, saidSilent := true }
  stop := true
  said := if r.saidSilent then [] else [what]

/-- `consider`. -/
def consider (face : Face) (now : ℕ) (e : Entry) (r : Recorder) : Outcome :=
  match e.key with
  | none => { recorder := r }
  | some key =>
    let one := find Held.key key r.held
    if fresh one e.value now then { recorder := r }
    else if face.unserved then r.silent now .unserved
    else
      match addRecord face key e.value with
      | .silent why => r.silent now (.silent why)
      | .refused why =>
        let said := one.any fun one => one.refused && one.value = e.value
        { recorder := { r with held := heldKeep r.held ⟨key, e.value, now, true⟩ }
          said := if said then [] else [.warning why] }
      | .kept =>
        { recorder :=
            { r with held := heldKeep r.held ⟨key, e.value, now, false⟩, saidSilent := false }
          wrote := [(key, e.value)]
          said := if r.saidSilent then [.answers] else [] }

/-- The entries one after the other, up to one that nobody answers. -/
def recordFrom (face : Face) (now : ℕ) : List Entry → Recorder → Outcome
  | [], r => { recorder := r }
  | e :: rest, r =>
    let one := consider face now e r
    if one.stop then one
    else
      let more := recordFrom face now rest one.recorder
      { more with wrote := one.wrote ++ more.wrote, said := one.said ++ more.said }

/-- `ncfg_seen_record`. -/
def record (face : Face) (observed : List Backend) (now : ℕ) (r : Recorder) : Outcome :=
  if now < r.silentUntil then { recorder := r } else recordFrom face now (entriesOf observed) r

/-- One call of `ncfg_seen_record`. -/
structure Pass where
  face : Face
  observed : List Backend
  now : ℕ

/-- Passes one after the other : the recorder, and the records the store was given. -/
def passes : List Pass → Recorder → Recorder × List (Bytes × Bytes)
  | [], r => (r, [])
  | pass :: rest, r =>
    let one := record pass.face pass.observed pass.now r
    let more := passes rest one.recorder
    (more.1, one.wrote ++ more.2)

/-- What a store has under a key : the last record of it. -/
def entryOf (store : List (Bytes × Bytes)) (key : Bytes) : Option Bytes :=
  ((store.filter fun kv => kv.1 = key).getLast?).map Prod.snd

/-! ## A store that answers -/

/-- A store that keeps every record that fits its line. -/
def Answers (face : Face) : Prop :=
  face.unserved = false ∧ ∀ key escaped : Bytes, (recordLine key escaped).length < lineRoom →
    ask face (recordLine key escaped) answerRoom = .reply (asciis "ok")

/-- The store has what is remembered of it. -/
def Follows (held : List Held) (store : List (Bytes × Bytes)) : Prop :=
  ∀ one ∈ held, entryOf store one.key = some one.value

/-- What every run leaves, where the store answers. -/
structure Heard (r : Recorder) (store : List (Bytes × Bytes)) : Prop where
  keyed : Keyed Held.key r.held
  follows : Follows r.held store
  silentUntil : r.silentUntil = 0

theorem length_key {interface mac key : Bytes} (h : seenKey interface mac = some key) :
    key.length ≤ keyMax := by
  unfold seenKey at h
  dsimp only at h
  split_ifs at h with hempty hlong hall
  obtain rfl := Option.some.inj h
  rw [List.length_map]
  exact not_lt.1 hlong

theorem length_escaped (value : Bytes) : (value.flatMap fun c =>
    if Pages.escapes c then [ascii '%', hexDigit (c.toNat / 16), hexDigit (c.toNat % 16)]
    else [c]).length ≤ 3 * value.length := by
  induction value with
  | nil => exact le_rfl
  | cons c value ih =>
    rw [List.flatMap_cons, List.length_append, List.length_cons]
    split_ifs
    · simp only [List.length_cons, List.length_nil]
      omega
    · rw [List.length_singleton]
      omega

theorem addRecord_answers {face : Face} (hface : Answers face) {key value : Bytes}
    (hkey : key.length ≤ keyMax) (hvalue : value.length ≤ valueMax) :
    addRecord face key value = .kept := by
  have hlength := length_escaped value
  unfold addRecord escape
  dsimp only
  generalize (value.flatMap fun c => _) = escaped at hlength
  have hescaped : escaped.length < 3 * valueMax + 1 := by omega
  have hline : (recordLine key escaped).length < lineRoom := by
    simp only [recordLine, lineRoom, List.length_append, List.length_singleton]
    have hwords : (asciis "add record ").length = 11 := rfl
    omega
  rw [if_pos hescaped]
  dsimp only
  rw [if_neg (not_le.2 hline), hface.2 key escaped hline]
  dsimp only
  rw [if_pos rfl]

/-- What an entry makes of what is remembered, and what is written of it. -/
def visit (now : ℕ) (held : List Held) (kv : Bytes × Bytes) : List Held × List (Bytes × Bytes) :=
  if fresh (find Held.key kv.1 held) kv.2 now then (held, [])
  else (heldKeep held ⟨kv.1, kv.2, now, false⟩, [kv])

/-- The keys and values of a pass, one after the other. -/
def visits (now : ℕ) : List Held → List (Bytes × Bytes) → List Held × List (Bytes × Bytes)
  | held, [] => (held, [])
  | held, kv :: rest =>
    let more := visits now (visit now held kv).1 rest
    (more.1, (visit now held kv).2 ++ more.2)

/-- The keys and values that a pass gives. -/
def given (entries : List Entry) : List (Bytes × Bytes) :=
  entries.filterMap fun e => e.key.map fun key => (key, e.value)

/-- With a store that answers, an entry is considered as it is visited. -/
theorem consider_answers {face : Face} (hface : Answers face) (now : ℕ) (e : Entry)
    (r : Recorder) :
    (consider face now e r).stop = false ∧
      (consider face now e r).recorder.silentUntil = r.silentUntil ∧
      ((consider face now e r).recorder.held, (consider face now e r).wrote) =
        visits now r.held (given [e]) := by
  unfold consider
  cases hkey : e.key with
  | none => exact ⟨rfl, rfl, by simp [given, hkey, visits]⟩
  | some key =>
    have hgiven : given [e] = [(key, e.value)] := by simp [given, hkey]
    have hvalue : e.value.length ≤ valueMax := List.length_take_le _ _
    rw [hgiven]
    dsimp only
    simp only [visits, visit, List.append_nil]
    by_cases hfresh : fresh (find Held.key key r.held) e.value now = true
    · rw [if_pos hfresh, if_pos hfresh]
      exact ⟨rfl, rfl, rfl⟩
    · rw [if_neg hfresh, if_neg hfresh, if_neg (by simp [hface.1]),
        addRecord_answers hface (length_key hkey) hvalue]
      exact ⟨rfl, rfl, rfl⟩

theorem visits_append (now : ℕ) : ∀ (held : List Held) (a b : List (Bytes × Bytes)),
    visits now held (a ++ b) = ((visits now (visits now held a).1 b).1,
      (visits now held a).2 ++ (visits now (visits now held a).1 b).2)
  | held, [], b => rfl
  | held, kv :: a, b => by
    simp only [List.cons_append, visits, visits_append now _ a b, List.append_assoc]

/-- And so is a whole pass. -/
theorem recordFrom_answers {face : Face} (hface : Answers face) (now : ℕ) :
    ∀ (entries : List Entry) (r : Recorder),
      (recordFrom face now entries r).recorder.silentUntil = r.silentUntil ∧
        ((recordFrom face now entries r).recorder.held, (recordFrom face now entries r).wrote) =
          visits now r.held (given entries) := by
  intro entries
  induction entries with
  | nil => exact fun r => ⟨rfl, rfl⟩
  | cons e entries ih =>
    intro r
    obtain ⟨hstop, hsilent, hone⟩ := consider_answers hface now e r
    obtain ⟨hsilent', hmore⟩ := ih (consider face now e r).recorder
    have hsplit : given (e :: entries) = given [e] ++ given entries := by
      rw [given, given, given, ← List.filterMap_append, List.singleton_append]
    rw [hsplit, visits_append, ← hone, ← hmore, recordFrom]
    simp only [hstop, Bool.false_eq_true, if_false, and_true]
    exact hsilent'.trans hsilent

/-! ## What is left under a key -/

variable {held : List Held} {now : ℕ}

theorem keyed_heldKeep (hheld : Keyed Held.key held) (new : Held) :
    Keyed Held.key (heldKeep held new) := by
  unfold heldKeep
  split_ifs with hfull
  · have hnot : new.key ∉ held.map Held.key := fun hmem => by
      obtain ⟨one, hone, hkey⟩ := List.mem_map.1 hmem
      have hfound : (find Held.key new.key held).isSome = true :=
        List.find?_isSome.2 ⟨one, hone, decide_eq_true hkey⟩
      rw [Option.isNone_iff_eq_none.1 hfull.1] at hfound
      cases hfound
    rw [Keyed, List.map_set]
    exact List.Nodup.set hheld hnot
  · exact KeyedList.Edit.keyed_apply (.bump new new.renewed fun _ => rfl) hheld

theorem keyed_visit (hheld : Keyed Held.key held) (kv : Bytes × Bytes) :
    Keyed Held.key (visit now held kv).1 := by
  unfold visit
  split_ifs
  · exact hheld
  · exact keyed_heldKeep hheld _

theorem keyed_visits (hheld : Keyed Held.key held) (kvs : List (Bytes × Bytes)) :
    Keyed Held.key (visits now held kvs).1 := by
  induction kvs generalizing held with
  | nil => exact hheld
  | cons kv kvs ih => exact ih (keyed_visit hheld kv)

/-- What makes room for a record : the entry written longest ago, where the key is new to a full
table. -/
def displaced (held : List Held) (key : Bytes) : Option Bytes :=
  if (find Held.key key held).isNone ∧ heldMax ≤ held.length then held[oldest held]?.map Held.key
  else none

theorem oldest_lt (h : held ≠ []) : oldest held < held.length := by
  refine List.findIdx_lt_length_of_exists ?_
  obtain ⟨first, hfirst⟩ : ∃ first, List.argmin Held.written held = some first :=
    Option.ne_none_iff_exists'.1 (mt List.argmin_eq_none.1 h)
  refine ⟨first, List.argmin_mem hfirst, ?_⟩
  simpa using fun other hother => List.le_of_mem_argmin hother hfirst

theorem find_heldKeep (hheld : Keyed Held.key held) (new : Held) (key : Bytes) :
    find Held.key key (heldKeep held new) =
      if new.key = key then some new
      else if displaced held new.key = some key then none
      else find Held.key key held := by
  unfold heldKeep displaced
  by_cases hfull : (find Held.key new.key held).isNone ∧ heldMax ≤ held.length
  · rw [if_pos hfull, if_pos hfull]
    have hne : held ≠ [] := List.ne_nil_of_length_pos (lt_of_lt_of_le (by decide) hfull.2)
    obtain ⟨old, hold⟩ : ∃ old, held[oldest held]? = some old :=
      ⟨_, List.getElem?_eq_getElem (oldest_lt hne)⟩
    have hnew : new.key ∉ held.map Held.key := fun hmem => by
      rw [KeyedList.mem_map_iff_find, ← Option.not_isNone, hfull.1] at hmem
      cases hmem
    rw [KeyedList.find_set key hheld hold hnew, hold]
    simp only [Option.map_some, Option.some.injEq]
  · rw [if_neg hfull, if_neg hfull, KeyedList.find_bump key new new.renewed fun _ => rfl,
      if_neg (Option.some_ne_none key).symm]
    split_ifs with hkey
    · cases hfound : find Held.key key held with
      | none => rfl
      | some one =>
        have hone : one.key = key := by simpa using List.find?_some hfound
        rw [← hkey] at hone
        change some (new.renewed one) = some new
        rw [Held.renewed, hone]
    · rfl

/-- What an entry leaves under a key : what it says itself, if it was not fresh, and nothing where
it takes the place. -/
theorem find_visit (hheld : Keyed Held.key held) (kv : Bytes × Bytes) (key : Bytes) :
    find Held.key key (visit now held kv).1 =
      if kv.1 = key then
        if fresh (find Held.key key held) kv.2 now then find Held.key key held
        else some ⟨kv.1, kv.2, now, false⟩
      else if displaced held kv.1 = some key then none
      else find Held.key key held := by
  by_cases hkey : kv.1 = key
  · subst hkey
    rw [if_pos rfl, visit]
    split_ifs with hfresh
    · rfl
    · rw [find_heldKeep hheld, if_pos rfl]
  · rw [if_neg hkey, visit]
    split_ifs with hfresh hold hold
    · -- what is fresh is there, and takes no place
      have hnone := congrArg Option.isSome hold
      rw [displaced, if_neg] at hnone
      · cases hnone
      · rintro ⟨hnew, -⟩
        rw [Option.isNone_iff_eq_none.1 hnew] at hfresh
        cases hfresh
    · rfl
    · rw [find_heldKeep hheld, if_neg hkey, if_pos hold]
    · rw [find_heldKeep hheld, if_neg hkey, if_neg hold]

/-- What is remembered under a key makes room for one of these. -/
def Displaced (now : ℕ) (key : Bytes) : List Held → List (Bytes × Bytes) → Prop
  | _, [] => False
  | held, kv :: rest =>
    displaced held kv.1 = some key ∨ Displaced now key (visit now held kv).1 rest

/-- A key that a pass does not come by : it is there as before, unless it made room. -/
theorem find_visits {key : Bytes} : ∀ {kvs : List (Bytes × Bytes)} {held : List Held},
    Keyed Held.key held → key ∉ kvs.map Prod.fst →
      (Displaced now key held kvs → find Held.key key (visits now held kvs).1 = none) ∧
        (¬ Displaced now key held kvs →
          find Held.key key (visits now held kvs).1 = find Held.key key held)
  | [], _, _, _ => ⟨False.elim, fun _ => rfl⟩
  | kv :: kvs, held, hheld, hnot => by
    rw [List.map_cons, List.mem_cons, not_or] at hnot
    obtain ⟨hgone, hkept⟩ := find_visits (keyed_visit hheld kv) hnot.2
    have hone := @find_visit held now hheld kv key
    rw [if_neg (Ne.symm hnot.1)] at hone
    rw [visits, Displaced]
    by_cases hrest : Displaced now key (visit now held kv).1 kvs
    · exact ⟨fun _ => hgone hrest, fun h => absurd (Or.inr hrest) h⟩
    · rw [hkept hrest, hone]
      by_cases hold : displaced held kv.1 = some key
      · exact ⟨fun _ => if_pos hold, fun h => absurd (Or.inl hold) h⟩
      · exact ⟨fun h => absurd h (not_or.2 ⟨hold, hrest⟩), fun _ => if_neg hold⟩

theorem fresh_new (key value : Bytes) {later : ℕ} (hlater : later < now + refreshSeconds) :
    fresh (some ⟨key, value, now, false⟩) value later = true := by
  simpa [fresh] using hlater

/-! ## A quiet pass -/

/-- A pass writes nothing where all it comes by is fresh. -/
theorem visits_wrote_nil (kvs : List (Bytes × Bytes)) :
    (visits now held kvs).2 = [] ↔
      ∀ kv ∈ kvs, fresh (find Held.key kv.1 held) kv.2 now = true := by
  induction kvs with
  | nil => simp [visits]
  | cons kv kvs ih =>
    simp only [visits, visit, List.mem_cons, forall_eq_or_imp]
    split_ifs with hfresh
    · simp [hfresh, ih]
    · simp [hfresh]

/-- Each key gets one value. -/
def OneValue (kvs : List (Bytes × Bytes)) : Prop :=
  ∀ kv ∈ kvs, ∀ kv' ∈ kvs, kv.1 = kv'.1 → kv.2 = kv'.2

/-- Where a pass last comes by a host, it stays remembered from there, and it does not fall due
between the two times if it is left alone. -/
def Stays (held : List Held) (kvs : List (Bytes × Bytes)) (now later : ℕ) : Prop :=
  ∀ before kv after, kvs = before ++ kv :: after → kv.1 ∉ after.map Prod.fst →
    let there := (visits now held before).1
    ¬ Displaced now kv.1 (visit now there kv).1 after ∧
      (fresh (find Held.key kv.1 there) kv.2 now = true →
        fresh (find Held.key kv.1 there) kv.2 later = true)

theorem exists_last {key : Bytes} (kvs : List (Bytes × Bytes)) (h : key ∈ kvs.map Prod.fst) :
    ∃ before kv after, kvs = before ++ kv :: after ∧ kv.1 = key ∧ key ∉ after.map Prod.fst := by
  induction kvs with
  | nil => simp at h
  | cons kv kvs ih =>
    by_cases hlater : key ∈ kvs.map Prod.fst
    · obtain ⟨before, last, after, rfl, hkey, hnot⟩ := ih hlater
      exact ⟨kv :: before, last, after, rfl, hkey, hnot⟩
    · rw [List.map_cons, List.mem_cons, or_iff_left hlater] at h
      exact ⟨[], kv, kvs, rfl, h.symm, hlater⟩

/-- What a pass leaves of a host is fresh for the next one exactly where the host stays. -/
theorem fresh_visits_iff {later : ℕ} (hheld : Keyed Held.key held)
    (hlater : later < now + refreshSeconds) {kv : Bytes × Bytes} (before : List (Bytes × Bytes))
    {after : List (Bytes × Bytes)} (hlast : kv.1 ∉ after.map Prod.fst) :
    fresh (find Held.key kv.1 (visits now held (before ++ kv :: after)).1) kv.2 later = true ↔
      ¬ Displaced now kv.1 (visit now (visits now held before).1 kv).1 after ∧
        (fresh (find Held.key kv.1 (visits now held before).1) kv.2 now = true →
          fresh (find Held.key kv.1 (visits now held before).1) kv.2 later = true) := by
  have hthere : Keyed Held.key (visits now held before).1 := keyed_visits hheld before
  obtain ⟨hgone, hkept⟩ := find_visits (@keyed_visit _ now hthere kv) hlast
  have hone := @find_visit _ now hthere kv kv.1
  rw [if_pos rfl] at hone
  rw [visits_append]
  dsimp only [visits]
  by_cases hdisplaced : Displaced now kv.1 (visit now (visits now held before).1 kv).1 after
  · rw [hgone hdisplaced]
    exact iff_of_false (by simp [fresh]) fun h => h.1 hdisplaced
  · rw [hkept hdisplaced, hone, and_iff_right hdisplaced]
    split_ifs with hfresh
    · rw [forall_prop_of_true hfresh]
    · exact iff_of_true (fresh_new _ _ hlater) fun h => absurd h hfresh

/-- A second visit records nothing exactly where each key has one value and nothing is displaced. -/
theorem visits_quiet_iff {later : ℕ} {kvs : List (Bytes × Bytes)} (hheld : Keyed Held.key held)
    (hlater : later < now + refreshSeconds) :
    (visits later (visits now held kvs).1 kvs).2 = [] ↔
      OneValue kvs ∧ Stays held kvs now later := by
  rw [visits_wrote_nil]
  constructor
  · intro hfresh
    refine ⟨fun kv hkv kv' hkv' hkey => ?_, fun before kv after hsplit hlast => ?_⟩
    · have h := hfresh kv hkv
      have h' := hfresh kv' hkv'
      rw [← hkey] at h'
      cases hfound : find Held.key kv.1 (visits now held kvs).1 with
      | none =>
        rw [hfound] at h
        cases h
      | some one =>
        rw [hfound, fresh, Bool.and_eq_true, decide_eq_true_iff] at h h'
        exact h.1.symm.trans h'.1
    · subst hsplit
      exact (fresh_visits_iff hheld hlater before hlast).1 (hfresh kv (by simp))
  · rintro ⟨hone, hstays⟩ kv hkv
    obtain ⟨before, last, after, hsplit, hkey, hlast⟩ := exists_last kvs (List.mem_map_of_mem hkv)
    rw [← hkey] at hlast
    have hvalue := hone kv hkv last (by simp [hsplit]) hkey.symm
    have hfresh := (fresh_visits_iff hheld hlater before hlast).2
      (hstays before last after hsplit hlast)
    rwa [← hsplit, hkey, ← hvalue] at hfresh

/-! ## Room for all -/

theorem mem_heldKeep (hheld : Keyed Held.key held) {new one : Held}
    (hone : one ∈ heldKeep held new) : one = new ∨ one ∈ held ∧ one.key ≠ new.key := by
  have hfound := KeyedList.find_of_mem (keyed_heldKeep hheld new) hone
  unfold heldKeep at hone hfound
  split_ifs at hone hfound with hfull
  · have hnone := List.find?_eq_none.1 (Option.isNone_iff_eq_none.1 hfull.1)
    rcases List.mem_or_eq_of_mem_set hone with hmem | rfl
    · exact Or.inr ⟨hmem, fun hkey => hnone one hmem (decide_eq_true hkey)⟩
    · exact Or.inl rfl
  · rw [KeyedList.find_bump _ new new.renewed fun _ => rfl] at hfound
    split_ifs at hfound with hkey
    · left
      cases hold : find Held.key one.key held with
      | none =>
        rw [hold] at hfound
        exact (Option.some.inj hfound).symm
      | some old =>
        rw [hold] at hfound
        have hold : new.renewed old = one := Option.some.inj hfound
        rw [← hold, Held.renewed] at hkey ⊢
        rw [← hkey]
    · exact Or.inr ⟨List.mem_of_find?_eq_some hfound, fun heq => hkey heq.symm⟩

/-- What is remembered of it is not due at a time. -/
def Held.Undue (later : ℕ) (one : Held) : Prop :=
  later < one.written + (if one.refused then retrySeconds else refreshSeconds)

/-- A full table is never needed for the hosts remembered and these. -/
def Room (held : List Held) (kvs : List (Bytes × Bytes)) : Prop :=
  (held.map Held.key ++ kvs.map Prod.fst).toFinset.card ≤ heldMax

theorem Room.next {kv : Bytes × Bytes} {kvs : List (Bytes × Bytes)} (h : Room held (kv :: kvs))
    (hheld : Keyed Held.key held) :
    displaced held kv.1 = none ∧ Room (visit now held kv).1 kvs := by
  have hnone : displaced held kv.1 = none := by
    refine if_neg fun hfull => ?_
    have hnew : kv.1 ∉ held.map Held.key := fun hmem => by
      rw [KeyedList.mem_map_iff_find, ← Option.not_isNone, hfull.1] at hmem
      cases hmem
    have hcard := Finset.card_le_card (s := (kv.1 :: held.map Held.key).toFinset)
      (t := (held.map Held.key ++ (kv :: kvs).map Prod.fst).toFinset) fun key hkey => by
        simp only [List.mem_toFinset, List.mem_cons, List.mem_append, List.map_cons] at hkey ⊢
        tauto
    rw [List.toFinset_card_of_nodup (List.nodup_cons.2 ⟨hnew, hheld⟩), List.length_cons,
      List.length_map] at hcard
    exact absurd (hcard.trans h) (by omega)
  refine ⟨hnone, le_trans (Finset.card_le_card fun key hkey => ?_) h⟩
  simp only [List.mem_toFinset, List.mem_append, List.map_cons, List.mem_cons] at hkey ⊢
  rcases hkey with hkey | hkey
  · rw [KeyedList.mem_map_iff_find, find_visit hheld, hnone] at hkey
    rw [KeyedList.mem_map_iff_find]
    by_cases hkv : kv.1 = key
    · exact Or.inr (Or.inl hkv.symm)
    · rw [if_neg hkv] at hkey
      exact Or.inl hkey
  · exact Or.inr (Or.inr hkey)

theorem Room.not_displaced {key : Bytes} : ∀ {kvs : List (Bytes × Bytes)} {held : List Held},
    Keyed Held.key held → Room held kvs → ¬ Displaced now key held kvs
  | [], _, _, _ => id
  | kv :: kvs, held, hheld, h => by
    obtain ⟨hnone, hrest⟩ := @Room.next held now _ _ h hheld
    rw [Displaced, hnone]
    rintro (hold | hlater)
    · cases hold
    · exact hrest.not_displaced (keyed_visit hheld kv) hlater

theorem Room.rest : ∀ {before after : List (Bytes × Bytes)} {held : List Held},
    Keyed Held.key held → Room held (before ++ after) → Room (visits now held before).1 after
  | [], _, _, _, h => h
  | kv :: before, after, held, hheld, h => by
    have hone : Room (visit now held kv).1 (before ++ after) := (h.next hheld).2
    have hrest := hone.rest (keyed_visit hheld kv)
    exact hrest

theorem undue_visits {later : ℕ} (hlater : later < now + refreshSeconds)
    (kvs : List (Bytes × Bytes)) (hheld : Keyed Held.key held)
    (hdue : ∀ one ∈ held, one.Undue later) :
    ∀ one ∈ (visits now held kvs).1, one.Undue later := by
  induction kvs generalizing held with
  | nil => exact hdue
  | cons kv kvs ih =>
    refine ih (keyed_visit hheld kv) fun one hone => ?_
    unfold visit at hone
    split_ifs at hone with hfresh
    · exact hdue one hone
    · rcases mem_heldKeep hheld hone with rfl | ⟨hmem, -⟩
      · simpa [Held.Undue] using hlater
      · exact hdue one hmem

/-- With room for all and nothing remembered that falls due, every host stays. -/
theorem Room.stays {kvs : List (Bytes × Bytes)} {later : ℕ} (hheld : Keyed Held.key held)
    (h : Room held kvs) (hdue : ∀ one ∈ held, one.Undue later)
    (hlater : later < now + refreshSeconds) : Stays held kvs now later := by
  rintro before kv after rfl -
  have hthere := @keyed_visits _ now hheld before
  have hroom : Room (visits now held before).1 (kv :: after) := h.rest hheld
  refine ⟨(hroom.next hthere).2.not_displaced (keyed_visit hthere kv), fun hfresh => ?_⟩
  cases hfound : find Held.key kv.1 (visits now held before).1 with
  | none =>
    rw [hfound] at hfresh
    cases hfresh
  | some one =>
    rw [hfound] at hfresh
    have hlate := undue_visits hlater before hheld hdue one (List.mem_of_find?_eq_some hfound)
    rw [fresh, Bool.and_eq_true] at hfresh ⊢
    exact ⟨hfresh.1, decide_eq_true hlate⟩

/-! ## What the store has -/

theorem entryOf_append (a b : List (Bytes × Bytes)) (key : Bytes) :
    entryOf (a ++ b) key = (entryOf b key).or (entryOf a key) := by
  rw [entryOf, entryOf, entryOf, List.filter_append, List.getLast?_append]
  cases (b.filter fun kv => kv.1 = key).getLast? <;> rfl

theorem entryOf_singleton (kv : Bytes × Bytes) (key : Bytes) :
    entryOf [kv] key = if kv.1 = key then some kv.2 else none := by
  unfold entryOf
  by_cases hkey : kv.1 = key <;> simp [hkey]

/-- An entry keeps what is remembered and the store in step, and the store has what it says. -/
theorem visit_follows {store : List (Bytes × Bytes)} (hheld : Keyed Held.key held)
    (h : Follows held store) (kv : Bytes × Bytes) :
    Follows (visit now held kv).1 (store ++ (visit now held kv).2) ∧
      ∀ key, entryOf (store ++ (visit now held kv).2) key = entryOf (store ++ [kv]) key := by
  unfold visit
  split_ifs with hfresh
  · refine ⟨by simpa using h, fun key => ?_⟩
    rw [List.append_nil, entryOf_append, entryOf_singleton]
    split_ifs with hkey
    · cases hfound : find Held.key kv.1 held with
      | none => rw [hfound] at hfresh; cases hfresh
      | some one =>
        have hone := h one (List.mem_of_find?_eq_some hfound)
        have hsame : one.key = kv.1 := by simpa using List.find?_some hfound
        rw [hfound, fresh, Bool.and_eq_true, decide_eq_true_iff] at hfresh
        rw [← hkey, ← hsame, hone, hfresh.1]
        rfl
    · rfl
  · refine ⟨fun one hone => ?_, fun key => rfl⟩
    rw [entryOf_append, entryOf_singleton]
    rcases mem_heldKeep hheld hone with rfl | ⟨hmem, hne⟩
    · rw [if_pos rfl]
      rfl
    · rw [if_neg (Ne.symm hne)]
      exact h one hmem

theorem visits_follows {store : List (Bytes × Bytes)} (hheld : Keyed Held.key held)
    (h : Follows held store) (kvs : List (Bytes × Bytes)) :
    Follows (visits now held kvs).1 (store ++ (visits now held kvs).2) ∧
      ∀ key, entryOf (store ++ (visits now held kvs).2) key = entryOf (store ++ kvs) key := by
  induction kvs generalizing held store with
  | nil => exact ⟨by simpa [visits] using h, fun key => rfl⟩
  | cons kv kvs ih =>
    obtain ⟨hone, hsame⟩ := @visit_follows held now store hheld h kv
    obtain ⟨hmore, hrest⟩ := ih (keyed_visit hheld kv) hone
    simp only [visits, ← List.append_assoc]
    refine ⟨hmore, fun key => ?_⟩
    rw [hrest, entryOf_append, hsame, ← entryOf_append, List.append_assoc]
    rfl

/-! ## Runs -/

/-- Every pass is answered. -/
def Answered (ps : List Pass) : Prop := ∀ p ∈ ps, Answers p.face

/-- All that was observed, in its order. -/
def entriesIn (ps : List Pass) : List Entry := ps.flatMap fun p => entriesOf p.observed

/-- One pass, over a store that has what is remembered. -/
theorem Heard.record {r : Recorder} {store : List (Bytes × Bytes)} (h : Heard r store)
    {face : Face} (hface : Answers face) (observed : List Backend) (now : ℕ) :
    ((Seen.record face observed now r).recorder.held, (Seen.record face observed now r).wrote) =
        visits now r.held (given (entriesOf observed)) ∧
      Heard (Seen.record face observed now r).recorder
        (store ++ (Seen.record face observed now r).wrote) := by
  obtain ⟨hsilent, hvisits⟩ := recordFrom_answers hface now (entriesOf observed) r
  have hrecord : Seen.record face observed now r = recordFrom face now (entriesOf observed) r := by
    rw [Seen.record, if_neg (by rw [h.silentUntil]; exact Nat.not_lt_zero now)]
  have hheld := congrArg Prod.fst hvisits
  have hwrote := congrArg Prod.snd hvisits
  dsimp only at hheld hwrote
  rw [hrecord]
  refine ⟨hvisits, ?_, ?_, hsilent.trans h.silentUntil⟩
  · rw [hheld]
    exact keyed_visits h.keyed _
  · rw [hheld, hwrote]
    exact (visits_follows h.keyed h.follows _).1

/-- A run of them. -/
theorem Heard.passes {ps : List Pass} (hps : Answered ps) {r : Recorder}
    {store : List (Bytes × Bytes)} (h : Heard r store) :
    Heard (Seen.passes ps r).1 (store ++ (Seen.passes ps r).2) ∧
      ∀ key, entryOf (store ++ (Seen.passes ps r).2) key =
        entryOf (store ++ given (entriesIn ps)) key := by
  induction ps generalizing r store with
  | nil => exact ⟨by simpa [Seen.passes] using h, fun key => rfl⟩
  | cons p ps ih =>
    obtain ⟨hvisits, hheard⟩ := h.record (hps p (by simp)) p.observed p.now
    obtain ⟨hmore, hrest⟩ := ih (fun q hq => hps q (by simp [hq])) hheard
    have hwrote := congrArg Prod.snd hvisits
    dsimp only at hwrote
    simp only [Seen.passes, ← List.append_assoc]
    refine ⟨hmore, fun key => ?_⟩
    have hsplit : given (entriesIn (p :: ps)) =
        given (entriesOf p.observed) ++ given (entriesIn ps) := by
      rw [entriesIn, List.flatMap_cons, given, List.filterMap_append]
      rfl
    rw [hrest, hsplit, ← List.append_assoc, entryOf_append, entryOf_append _ (given (entriesIn ps)),
      hwrote, (visits_follows h.keyed h.follows _).2]

/-- A new record has heard nothing. -/
theorem heard_new : Heard {} [] := ⟨List.nodup_nil, nofun, rfl⟩

/-- Two entries are of one host : one interface, and one hardware address however it is spelled. -/
def SameHost (a b : Entry) : Prop :=
  a.interface = b.interface ∧ a.mac.map keySpelling = b.mac.map keySpelling

instance (a b : Entry) : Decidable (SameHost a b) := inferInstanceAs (Decidable (_ ∧ _))

/-- What is last said of a host. -/
def lastOf (entries : List Entry) (host : Entry) : Option Entry :=
  (entries.filter fun e => SameHost e host).getLast?

/-- What is last said under a key. -/
def lastUnder (entries : List Entry) (key : Bytes) : Option Entry :=
  (entries.filter fun e => e.key = some key).getLast?

/-- The store's entry for each host is what was last said of it. -/
def StoreFollows (entries : List Entry) (store : List (Bytes × Bytes)) : Prop :=
  ∀ e ∈ entries, ∃ key, e.key = some key ∧
    entryOf store key = (lastOf entries e).map Entry.text

/-- Each host has a key, and what is last said under it is what is last said of the host, in a
value that is not cut. -/
def SpelledApart (entries : List Entry) : Prop :=
  ∀ e ∈ entries, ∃ key, e.key = some key ∧
    (lastUnder entries key).map Entry.value = (lastOf entries e).map Entry.text

/-- The entry of a key is its last. -/
theorem entryOf_given (entries : List Entry) (key : Bytes) :
    entryOf (given entries) key = (lastUnder entries key).map Entry.value := by
  induction entries using List.reverseRecOn with
  | nil => rfl
  | append_singleton entries e ih =>
    have hsplit : given (entries ++ [e]) = given entries ++ given [e] := List.filterMap_append
    rw [hsplit, entryOf_append, ih, lastUnder, lastUnder, List.filter_append,
      List.getLast?_append]
    cases hkey : e.key with
    | none => simp [given, hkey, entryOf]
    | some k =>
      have hgiven : given [e] = [(k, e.value)] := by simp [given, hkey]
      rw [hgiven, entryOf_singleton]
      by_cases hk : k = key <;> simp [hkey, hk]

/-- A store that keeps everything. -/
def always : Face := .inProcess fun _ => asciis "ok\n"

theorem answers_always : Answers always := by
  refine ⟨rfl, fun key escaped hline => ?_⟩
  have hshort : ¬ bareRoom ≤ (recordLine key escaped).length :=
    not_le.2 (hline.trans (by decide))
  simp only [ask, always, if_neg hshort]
  rfl

/-- An access point with two stations, and the leases of the bridge they are on. -/
def home : List Backend :=
  [{ interface := asciis "wlan0"
     associated := [asciis "aa:bb:cc:dd:ee:01", asciis "aa:bb:cc:dd:ee:02"] },
   { interface := asciis "br0"
     leases := [⟨asciis "AA:BB:CC:DD:EE:01", some (asciis "192.168.1.5"), asciis "laptop"⟩,
       ⟨asciis "aa:bb:cc:dd:ee:03", some (asciis "192.168.1.6"), []⟩] }]

/-- One of the stations on its own, and then all of them. -/
def homePasses : List Pass :=
  [⟨always, [{ interface := asciis "wlan0", associated := [asciis "aa:bb:cc:dd:ee:01"] }], 0⟩,
    ⟨always, home, 30⟩]

def stationWithLease : List Backend :=
  [{ interface := asciis "wlan0"
     associated := [asciis "aa:bb:cc:dd:ee:01"]
     leases := [⟨asciis "aa:bb:cc:dd:ee:01", some (asciis "192.168.1.5"), []⟩] }]

end Netcfgd.Seen
