import Mathlib.Data.Char
import Mathlib.Data.List.Lex
import Mathlib.Data.List.Sort

/-!
# Who refers to a credential

`host/secret_walk.c` : every secret reference a document makes, and the block that makes it, and
`ncfg_wifi_profile_forget` of `host/wifi_profile.c`, which takes away the credentials a forgotten
network leaves unused.

The walk passes over two places that hold a reference : the certificates of a wired port's 802.1X,
and the roaming key of an access point. So a credential in use is reported in use exactly where it
is not named in these alone (`credentials_reported`).
-/

namespace Netcfgd.SecretWalk

abbrev Text := List Char

local instance lawfulBEqText : @LawfulBEq Text List.instBEq := List.instLawfulBEq

/-! ## The document -/

/-- `ncfg_secret_provider_t`. -/
inductive Provider
  | file | exec | keyring | pass | estate
  deriving DecidableEq, Repr

/-- `ncfg_secret_ref_t`. -/
structure SecretRef where
  provider : Provider := .file
  name : Text
  deriving DecidableEq, Repr

/-- `ncfg_cert_source_t`, where there is one. -/
inductive CertSource
  | path (path : Text)
  | stored (reference : SecretRef)
  deriving DecidableEq, Repr

def CertSource.reference : CertSource → Option SecretRef
  | path _ => none
  | stored r => some r

/-- `ncfg_eap_config_t`. -/
structure EapConfig where
  password : Option SecretRef := none
  caCert : Option CertSource := none
  clientCert : Option CertSource := none
  privateKey : Option CertSource := none
  deriving DecidableEq, Repr

/-- `ncfg_security_t`. -/
inductive Security
  | open
  | psk (passphrase : SecretRef)
  | eap (config : EapConfig)
  | owe
  deriving DecidableEq, Repr

/-- `ncfg_wg_peer_t`. -/
structure Peer where
  name : Text
  presharedKey : Option SecretRef := none

/-- The kinds of device that hold a reference, and the others. -/
inductive Kind
  | wireguard (privateKey : SecretRef) (peers : List Peer)
  | pppoe (password : SecretRef)
  | openvpn (password : Option SecretRef)
  | other

/-- `ncfg_device_t`. -/
structure Device where
  name : Text
  kind : Kind

/-- `ncfg_interface_t`. -/
structure Interface where
  name : Text
  dot1x : Option EapConfig := none

/-- `ncfg_wifi_network_t`, and `ncfg_mesh_t`. -/
structure Network where
  id : Text
  security : Security

/-- `ncfg_access_point_t`. -/
structure AccessPoint where
  id : Text
  security : Security
  roamingKey : Option SecretRef := none

/-- `ncfg_document_t`, as far as it holds references. -/
structure Document where
  devices : List Device := []
  interfaces : List Interface := []
  networks : List Network := []
  accessPoints : List AccessPoint := []
  meshes : List Network := []

/-! ## The walk -/

/-- What `snprintf` leaves of a text in a buffer. -/
def cut (size : ℕ) (text : Text) : Text := text.take (size - 1)

abbrev Note := Text × SecretRef

/-- `notef`, of a reference that may be there. -/
def notef (what : Text) (reference : Option SecretRef) : List Note :=
  (reference.map fun r => (cut 256 what, r)).toList

def storedIn (source : Option CertSource) : Option SecretRef := source.bind CertSource.reference

/-- `note_security`. -/
def noteSecurity (what : Text) : Security → List Note
  | .psk passphrase => [(what, passphrase)]
  | .eap config =>
    (config.password.map fun r => (what, r)).toList ++
      notef (what ++ " (client key)".toList) (storedIn config.privateKey) ++
      notef (what ++ " (CA certificate)".toList) (storedIn config.caCert) ++
      notef (what ++ " (client certificate)".toList) (storedIn config.clientCert)
  | .open | .owe => []

def noteDevice (d : Device) : List Note :=
  let what := "interface ".toList ++ d.name
  match d.kind with
  | .wireguard key peers =>
    notef (what ++ " (private key)".toList) key ++
      peers.flatMap fun p =>
        notef (what ++ " (peer ".toList ++ p.name ++ [')']) p.presharedKey
  | .pppoe password => notef what password
  | .openvpn password => notef what password
  | .other => []

def noteInterface (i : Interface) : List Note :=
  match i.dot1x with
  | none => []
  | some config =>
    notef ("interface ".toList ++ i.name ++ " (802.1X)".toList) config.password ++
      notef ("interface ".toList ++ i.name ++ " (802.1X client key)".toList)
        (storedIn config.privateKey)

/-- The notes `references_of` makes, in its order. -/
def noted (d : Document) : List Note :=
  d.devices.flatMap noteDevice ++ d.interfaces.flatMap noteInterface ++
    (d.networks.flatMap fun n => noteSecurity (cut 160 ("network ".toList ++ n.id)) n.security) ++
    (d.accessPoints.flatMap fun p =>
      noteSecurity (cut 160 ("access point ".toList ++ p.id)) p.security) ++
    d.meshes.flatMap fun m => noteSecurity (cut 160 ("mesh ".toList ++ m.id)) m.security

/-- `entry_t`. -/
structure Entry where
  name : Text
  users : List Text := []

/-- `entry_for`, with the user it is for added where there is one. -/
def addUser (name : Text) (users : List Text) : List Entry → List Entry
  | [] => [⟨name, users⟩]
  | e :: es =>
    if e.name = name then ⟨e.name, e.users ++ users⟩ :: es else e :: addUser name users es

/-- `note`. -/
def note (refs : List Entry) (n : Note) : List Entry :=
  if n.2.provider = .estate then refs
  else addUser n.2.name (if n.1 = [] then [] else [n.1]) refs

def unique : List Text → List Text
  | x :: y :: rest => if x = y then unique (y :: rest) else x :: unique (y :: rest)
  | l => l

/-- `ncfg_host_strings_sort_unique`. -/
def sortUnique (items : List Text) : List Text := unique (items.insertionSort (· ≤ ·))

/-- `references_of`. -/
def referencesOf (d : Document) : List Entry :=
  ((noted d).foldl note []).map fun e => { e with users := sortUnique e.users }

/-- `ncfg_secret_named_by`. -/
def namedBy (security : Security) : List Text :=
  sortUnique (((noteSecurity [] security).foldl note []).map Entry.name)

/-- `ncfg_secret_referring_to`. -/
def referringTo (d : Document) (name : Text) : List Text :=
  (referencesOf d).flatMap fun e => if e.name = name then e.users else []

/-- `ncfg_secret_entry_t`. -/
structure Listed where
  name : Text
  stored : Bool
  usedBy : List Text

/-- `ncfg_secret_list`, of the files of the store. -/
def secretList (files : List Text) (d : Document) : List Listed :=
  let refs := referencesOf d
  (sortUnique (refs.map Entry.name ++ files)).map fun name =>
    { name, stored := name ∈ files
      usedBy := ((refs.find? fun e => e.name = name).map Entry.users).getD [] }

/-! ## Forgetting a network -/

def hasDots (name : Text) : Bool := (name.zip (name.drop 1)).any fun p => p = ('.', '.')

/-- Whether a name holds a control character, those of the C1 block being two bytes. -/
def hasControl (name : Text) : Bool :=
  (name.any fun c => c.toNat < 0x20 || c.toNat = 0x7f) ||
    (name.zip (name.drop 1)).any fun p => p.1.toNat = 0xc2 && 0x80 ≤ p.2.toNat && p.2.toNat ≤ 0x9f

/-- `ncfg_secret_name_usable` : why a name cannot be used, where it cannot. -/
def nameFault (name : Text) : Option String :=
  if name = [] then some "it is empty"
  else if 64 < name.length then some "it is longer than 64 bytes"
  else if '"' ∈ name ∨ '\\' ∈ name then some "it contains a quote or a backslash"
  else if '/' ∈ name then some "it contains a path separator, and it names a file"
  else if hasDots name ∨ name.head? = some '.' then
    some "it would name a hidden file or one outside the directory"
  else if hasControl name then some "it contains a control character"
  else none

def cannotBe (name : Text) (what why : String) : String :=
  "`" ++ String.ofList name ++ "` cannot be used as " ++ what ++ ": " ++ why

/-- A configuration directory : its drop-ins by name, the files of its store, and what taking one
away fails with, where it fails. -/
structure Directory where
  dropIns : List (Text × Text)
  secrets : List Text
  dropInError : Option String := none
  secretError : Text → Option String := fun _ => none

abbrev Compiler := List (Text × Text) → Except String Document

/-- `ncfg_config_remove_drop_in` : whether there was one to remove. -/
def removeDropIn (compile : Compiler) (dir : Directory) (name : Text) :
    Directory × Except String Bool :=
  match nameFault name with
  | some why => (dir, .error (cannotBe name "a name here" why))
  | none =>
    if dir.dropIns.any fun f => f.1 = name then
      match dir.dropInError with
      | some why => (dir, .error ("could not remove " ++ String.ofList name ++ ": " ++ why))
      | none =>
        let after := { dir with dropIns := dir.dropIns.filter fun f => f.1 ≠ name }
        match compile after.dropIns with
        | .error said =>
          (dir, .error ("removing that would stop the configuration compiling, so it was put " ++
            "back: " ++ said))
        | .ok _ => (after, .ok true)
    else (dir, .ok false)

/-- `ncfg_secret_store_remove`. -/
def storeRemove (dir : Directory) (name : Text) : Except String Directory :=
  match nameFault name with
  | some why => .error (cannotBe name "a secret name" why)
  | none =>
    match dir.secretError name with
    | some why => .error ("could not remove " ++ String.ofList name ++ ": " ++ why)
    | none => .ok { dir with secrets := dir.secrets.filter (· ≠ name) }

/-- `ncfg_wifi_forgotten_t`. -/
structure Forgotten where
  removed : List Text := []
  kept : List Text := []

/-- What the loop of `ncfg_wifi_profile_forget` has so far. -/
structure Forgetting where
  dir : Directory
  forgotten : Forgotten := {}
  failed : Option String := none

def forgetOne (after : Option Document) (s : Forgetting) (name : Text) : Forgetting :=
  if after.all fun d => !(referringTo d name).isEmpty then
    { s with forgotten := { s.forgotten with kept := s.forgotten.kept ++ [name] } }
  else if (nameFault name).isSome ∨ name ∉ s.dir.secrets then s
  else
    match storeRemove s.dir name with
    | .error why => { s with failed := some why }
    | .ok dir =>
      { s with dir, forgotten := { s.forgotten with removed := s.forgotten.removed ++ [name] } }

/-- `no_such_network`. -/
def noSuchNetwork (d : Document) (id : Text) : String :=
  "no network `" ++ String.ofList id ++ "` is configured" ++
    if d.networks = [] then ", and there are none to forget"
    else ". There is: " ++ ", ".intercalate (d.networks.map fun n => String.ofList n.id)

/-- `ncfg_wifi_profile_forget`. -/
def wifiProfileForget (compile : Compiler) (dir : Directory) (document : Option Document)
    (id : Text) : Directory × Except String Forgotten :=
  match nameFault id with
  | some why => (dir, .error (cannotBe id "a network id here" why))
  | none =>
    match document with
    | none =>
      (dir, .error "there is no compiled configuration, so there is no network to forget")
    | some d =>
      match d.networks.find? fun n => n.id = id with
      | none => (dir, .error (noSuchNetwork d id))
      | some network =>
        match removeDropIn compile dir ("wifi-".toList ++ id) with
        | (dir, .error why) => (dir, .error why)
        | (dir, .ok false) =>
          (dir, .error ("`" ++ String.ofList id ++ "` is configured, but not in a file netcfgd " ++
            "wrote -- so netcfgd cannot take it away. Whatever defines it is somebody's own " ++
            "file, and editing it is theirs"))
        | (dir, .ok true) =>
          let after := (compile dir.dropIns).toOption
          let s := (namedBy network.security).foldl (forgetOne after) { dir }
          (s.dir, match s.failed with
            | some why => .error why
            | none => .ok s.forgotten)

/-! ## What a document refers to

The law, over the document itself : every block with everything in it that refers. -/

def EapConfig.references (c : EapConfig) : List SecretRef :=
  c.password.toList ++ (storedIn c.privateKey).toList ++ (storedIn c.caCert).toList ++
    (storedIn c.clientCert).toList

def Security.references : Security → List SecretRef
  | .psk passphrase => [passphrase]
  | .eap config => config.references
  | .open | .owe => []

def Kind.references : Kind → List SecretRef
  | .wireguard key peers => key :: peers.flatMap fun p => p.presharedKey.toList
  | .pppoe password => [password]
  | .openvpn password => password.toList
  | .other => []

/-- Every block that can refer, as it is named, with what it refers to. -/
def blocks (d : Document) : List (Text × List SecretRef) :=
  (d.devices.map fun v => ("interface ".toList ++ v.name, v.kind.references)) ++
    (d.interfaces.map fun i => ("interface ".toList ++ i.name,
      (i.dot1x.map EapConfig.references).getD [])) ++
    (d.networks.map fun n => ("network ".toList ++ n.id, n.security.references)) ++
    (d.accessPoints.map fun p => ("access point ".toList ++ p.id,
      p.security.references ++ p.roamingKey.toList)) ++
    d.meshes.map fun m => ("mesh ".toList ++ m.id, m.security.references)

def RefersBy (refs : List SecretRef) (name : Text) : Prop :=
  ∃ r ∈ refs, r.name = name ∧ r.provider ≠ .estate

def Refers (d : Document) (name : Text) : Prop := ∃ b ∈ blocks d, RefersBy b.2 name

/-- Every secret a document refers to is reported, with its users. -/
def Reported (d : Document) : Prop :=
  ∀ name, Refers d name → referringTo d name ≠ [] ∧
    ∀ files, ∃ e ∈ secretList files d, e.name = name ∧ e.usedBy ≠ []

/-- A user is a block that does refer, named in full as far as the buffer holds. -/
def UserOf (d : Document) (name user : Text) : Prop :=
  ∃ b ∈ blocks d, RefersBy b.2 name ∧ cut 160 b.1 <+: user

/-- Whoever is reported as a user is one. -/
def Honest (d : Document) : Prop :=
  (∀ name, ∀ user ∈ referringTo d name, UserOf d name user) ∧
    ∀ files, ∀ e ∈ secretList files d, ∀ user ∈ e.usedBy, UserOf d e.name user

/-! ## What the walk passes over -/

/-- The references of an interface the walk does not read : the certificates. -/
def Interface.passedOver (i : Interface) : List SecretRef :=
  match i.dot1x with
  | none => []
  | some c => (storedIn c.caCert).toList ++ (storedIn c.clientCert).toList

/-- The references of a document the walk does not read : the certificates of the wired ports, and
the roaming keys of the access points. -/
def passedOver (d : Document) : List SecretRef :=
  d.interfaces.flatMap Interface.passedOver ++
    d.accessPoints.flatMap fun p => p.roamingKey.toList

def Noted (d : Document) (name : Text) : Prop :=
  RefersBy ((noted d).map Prod.snd) name

/-- Whatever is named where the walk does not read is named where it does as well. -/
def Covered (d : Document) : Prop := ∀ name, RefersBy (passedOver d) name → Noted d name

variable {name what user : Text}

theorem refersBy_append {x y : List SecretRef} :
    RefersBy (x ++ y) name ↔ RefersBy x name ∨ RefersBy y name := by
  simp only [RefersBy, List.mem_append, or_and_right, exists_or]

theorem refersBy_flatMap {α : Type*} {l : List α} {f : α → List SecretRef} :
    RefersBy (l.flatMap f) name ↔ ∃ a ∈ l, RefersBy (f a) name := by
  simp only [RefersBy, List.mem_flatMap]
  exact ⟨fun ⟨r, ⟨a, ha, hr⟩, h⟩ => ⟨a, ha, r, hr, h⟩, fun ⟨a, ha, r, hr, h⟩ => ⟨r, ⟨a, ha, hr⟩, h⟩⟩

theorem refersBy_map_flatMap {α : Type*} {l : List α} {f : α → List Note} :
    RefersBy ((l.flatMap f).map Prod.snd) name ↔ ∃ a ∈ l, RefersBy ((f a).map Prod.snd) name := by
  rw [List.map_flatMap, refersBy_flatMap]

@[simp] theorem map_notef (what : Text) (r : Option SecretRef) :
    (notef what r).map Prod.snd = r.toList := by
  cases r <;> rfl

/-! ### Block by block -/

theorem refersBy_noteDevice (v : Device) (name : Text) :
    RefersBy ((noteDevice v).map Prod.snd) name ↔ RefersBy v.kind.references name := by
  rcases v with ⟨what, kind⟩
  cases kind with
  | wireguard key peers =>
    simp only [noteDevice, Kind.references, List.map_append, map_notef, List.map_flatMap]
    rfl
  | pppoe password => simp only [noteDevice, Kind.references, map_notef, Option.toList_some]
  | openvpn password => simp only [noteDevice, Kind.references, map_notef]
  | other => rfl

theorem refersBy_noteInterface (i : Interface) (name : Text) :
    RefersBy ((i.dot1x.map EapConfig.references).getD []) name ↔
      RefersBy ((noteInterface i).map Prod.snd) name ∨ RefersBy i.passedOver name := by
  rcases i with ⟨what, _ | c⟩
  · simp [noteInterface, Interface.passedOver, RefersBy]
  · simp only [noteInterface, Interface.passedOver, EapConfig.references, Option.map_some,
      Option.getD_some, List.map_append, map_notef, refersBy_append, or_assoc]

theorem refersBy_noteSecurity (what : Text) (s : Security) (name : Text) :
    RefersBy ((noteSecurity what s).map Prod.snd) name ↔ RefersBy s.references name := by
  cases s with
  | «open» => rfl
  | owe => rfl
  | psk passphrase => rfl
  | eap c =>
    have hpassword : (c.password.map fun r => (what, r)).toList.map Prod.snd =
        c.password.toList := by
      cases c.password <;> rfl
    simp only [noteSecurity, Security.references, EapConfig.references, List.map_append, map_notef,
      hpassword]

theorem refers_iff (d : Document) (name : Text) :
    Refers d name ↔ Noted d name ∨ RefersBy (passedOver d) name := by
  have hblocks : Refers d name ↔
      (∃ v ∈ d.devices, RefersBy v.kind.references name) ∨
      (∃ i ∈ d.interfaces, RefersBy ((i.dot1x.map EapConfig.references).getD []) name) ∨
      (∃ n ∈ d.networks, RefersBy n.security.references name) ∨
      (∃ p ∈ d.accessPoints, RefersBy (p.security.references ++ p.roamingKey.toList) name) ∨
      ∃ m ∈ d.meshes, RefersBy m.security.references name := by
    simp only [Refers, blocks, List.mem_append, List.mem_map, or_and_right, exists_or, or_assoc]
    simp only [exists_exists_and_eq_and]
  have hnoted : Noted d name ↔
      (∃ v ∈ d.devices, RefersBy v.kind.references name) ∨
      (∃ i ∈ d.interfaces, RefersBy ((noteInterface i).map Prod.snd) name) ∨
      (∃ n ∈ d.networks, RefersBy n.security.references name) ∨
      (∃ p ∈ d.accessPoints, RefersBy p.security.references name) ∨
      ∃ m ∈ d.meshes, RefersBy m.security.references name := by
    simp only [Noted, noted, List.map_append, refersBy_append, refersBy_map_flatMap,
      refersBy_noteDevice, refersBy_noteSecurity, or_assoc]
  have hpassed : RefersBy (passedOver d) name ↔
      (∃ i ∈ d.interfaces, RefersBy i.passedOver name) ∨
      ∃ p ∈ d.accessPoints, RefersBy p.roamingKey.toList name := by
    simp only [passedOver, refersBy_append, refersBy_flatMap]
  rw [hblocks, hnoted, hpassed]
  simp only [refersBy_noteInterface, refersBy_append, and_or_left, exists_or]
  constructor
  · rintro (h | (h | h) | h | (h | h) | h) <;> simp only [h, true_or, or_true]
  · rintro ((h | h | h | h | h) | h | h) <;> simp only [h, true_or, or_true]

/-! ### The blocks that are named -/

theorem prefix_cut (what suffix : Text) : cut 160 what <+: cut 256 (what ++ suffix) := by
  rw [cut, cut, List.take_append]
  refine List.IsPrefix.trans ?_ (List.prefix_append _ _)
  rw [List.prefix_take_iff]
  exact ⟨List.take_prefix _ _, by rw [List.length_take]; omega⟩

theorem notef_prefix {suffix : Text} {r : Option SecretRef} {n : Note}
    (h : n ∈ notef (what ++ suffix) r) : cut 160 what <+: n.1 ∧ n.2 ∈ r.toList := by
  cases r with
  | none => cases h
  | some r =>
    rw [notef, Option.map_some, Option.toList_some, List.mem_singleton] at h
    subst h
    exact ⟨prefix_cut _ _, by simp⟩

theorem notef_prefix_self {r : Option SecretRef} {n : Note} (h : n ∈ notef what r) :
    cut 160 what <+: n.1 ∧ n.2 ∈ r.toList := by
  rw [← List.append_nil what] at h
  exact notef_prefix h

theorem noteDevice_user {v : Device} {n : Note} (h : n ∈ noteDevice v) :
    n.2 ∈ v.kind.references ∧ cut 160 ("interface ".toList ++ v.name) <+: n.1 := by
  rcases v with ⟨name, kind⟩
  cases kind with
  | wireguard key peers =>
    rcases List.mem_append.1 h with h | h
    · obtain ⟨hpre, hin⟩ := notef_prefix h
      exact ⟨List.mem_cons.2 (.inl (by simpa using hin)), hpre⟩
    · obtain ⟨p, hp, hn⟩ := List.mem_flatMap.1 h
      rw [List.append_assoc, List.append_assoc] at hn
      obtain ⟨hpre, hin⟩ := notef_prefix hn
      exact ⟨List.mem_cons.2 (.inr (List.mem_flatMap.2 ⟨p, hp, hin⟩)), hpre⟩
  | pppoe password =>
    obtain ⟨hpre, hin⟩ := notef_prefix_self h
    exact ⟨by simpa [Kind.references] using hin, hpre⟩
  | openvpn password =>
    obtain ⟨hpre, hin⟩ := notef_prefix_self h
    exact ⟨hin, hpre⟩
  | other => cases h

theorem noteInterface_user {i : Interface} {n : Note} (h : n ∈ noteInterface i) :
    n.2 ∈ (i.dot1x.map EapConfig.references).getD [] ∧
      cut 160 ("interface ".toList ++ i.name) <+: n.1 := by
  rcases i with ⟨name, _ | c⟩
  · cases h
  · rcases List.mem_append.1 h with h | h <;> obtain ⟨hpre, hin⟩ := notef_prefix h <;>
      exact ⟨by simp [EapConfig.references, hin], hpre⟩

theorem noteSecurity_user {s : Security} {n : Note} (h : n ∈ noteSecurity (cut 160 what) s) :
    n.2 ∈ s.references ∧ cut 160 what <+: n.1 := by
  have hcut : cut 160 (cut 160 what) = cut 160 what := by
    rw [cut, cut, List.take_take, min_self]
  cases s with
  | «open» => cases h
  | owe => cases h
  | psk passphrase =>
    rw [noteSecurity, List.mem_singleton] at h
    subst h
    exact ⟨List.mem_singleton.2 rfl, List.prefix_rfl⟩
  | eap c =>
    simp only [noteSecurity, List.mem_append] at h
    rcases h with ((h | h) | h) | h
    · rw [Option.mem_toList, Option.map_eq_some_iff] at h
      obtain ⟨r, hr, rfl⟩ := h
      exact ⟨by simp [Security.references, EapConfig.references, hr], List.prefix_rfl⟩
    all_goals
      obtain ⟨hpre, hin⟩ := notef_prefix h
      rw [hcut] at hpre
      exact ⟨by simp [Security.references, EapConfig.references, hin], hpre⟩

variable {d : Document}

theorem noted_block {n : Note} (h : n ∈ noted d) :
    ∃ b ∈ blocks d, n.2 ∈ b.2 ∧ cut 160 b.1 <+: n.1 := by
  simp only [noted, List.mem_append, List.mem_flatMap] at h
  simp only [blocks, List.mem_append, List.mem_map]
  rcases h with (((⟨v, hv, h⟩ | ⟨i, hi, h⟩) | ⟨w, hw, h⟩) | ⟨p, hp, h⟩) | ⟨m, hm, h⟩
  · exact ⟨_, .inl (.inl (.inl (.inl ⟨v, hv, rfl⟩))), noteDevice_user h⟩
  · exact ⟨_, .inl (.inl (.inl (.inr ⟨i, hi, rfl⟩))), noteInterface_user h⟩
  · exact ⟨_, .inl (.inl (.inr ⟨w, hw, rfl⟩)), noteSecurity_user h⟩
  · obtain ⟨hin, hpre⟩ := noteSecurity_user h
    exact ⟨_, .inl (.inr ⟨p, hp, rfl⟩), List.mem_append_left _ hin, hpre⟩
  · exact ⟨_, .inr ⟨m, hm, rfl⟩, noteSecurity_user h⟩

theorem block_named {b : Text × List SecretRef} (h : b ∈ blocks d) :
    cut 160 b.1 ≠ [] := by
  have hne : b.1 ≠ [] := by
    simp only [blocks, List.mem_append, List.mem_map] at h
    rcases h with (((⟨v, -, rfl⟩ | ⟨i, -, rfl⟩) | ⟨w, -, rfl⟩) | ⟨p, -, rfl⟩) | ⟨m, -, rfl⟩ <;>
      exact List.append_ne_nil_of_left_ne_nil (List.cons_ne_nil _ _) _
  rw [cut, Ne, List.take_eq_nil_iff]
  rintro (h | h)
  · exact absurd h (by decide)
  · exact hne h

theorem noted_named {n : Note} (h : n ∈ noted d) : n.1 ≠ [] := by
  obtain ⟨b, hb, -, hpre⟩ := noted_block h
  exact fun hnil => block_named hb (List.prefix_nil.1 (hnil ▸ hpre))

/-! ## The entries -/

def usersOf (refs : List Entry) (name : Text) : List Text :=
  refs.flatMap fun e => if e.name = name then e.users else []

theorem usersOf_cons (e : Entry) (refs : List Entry) (name : Text) :
    usersOf (e :: refs) name = (if e.name = name then e.users else []) ++ usersOf refs name :=
  rfl

theorem mem_usersOf_addUser {m : Text} {users : List Text} (refs : List Entry) :
    user ∈ usersOf (addUser m users refs) name ↔
      user ∈ usersOf refs name ∨ m = name ∧ user ∈ users := by
  induction refs with
  | nil => by_cases h : m = name <;> simp [addUser, usersOf, h]
  | cons e es ih =>
    by_cases he : e.name = m
    · rw [addUser, if_pos he, usersOf_cons, usersOf_cons, List.mem_append, List.mem_append]
      by_cases h : m = name
      · rw [if_pos (he.trans h), if_pos (he.trans h), List.mem_append]
        tauto
      · rw [if_neg (he ▸ h), if_neg (he ▸ h)]
        simp only [h, false_and, or_false]
    · rw [addUser, if_neg he, usersOf_cons, usersOf_cons, List.mem_append, List.mem_append, ih,
        or_assoc]

theorem mem_usersOf_note {n : Note} (refs : List Entry) :
    user ∈ usersOf (note refs n) name ↔ user ∈ usersOf refs name ∨
      n.2.provider ≠ .estate ∧ n.2.name = name ∧ n.1 ≠ [] ∧ n.1 = user := by
  by_cases hestate : n.2.provider = .estate
  · simp [note, hestate]
  · rw [note, if_neg hestate, mem_usersOf_addUser]
    by_cases hnil : n.1 = []
    · simp [hnil]
    · simp [hnil, hestate, eq_comm]

theorem mem_usersOf_foldl (notes : List Note) (refs : List Entry) :
    user ∈ usersOf (notes.foldl note refs) name ↔ user ∈ usersOf refs name ∨
      ∃ n ∈ notes, n.2.provider ≠ .estate ∧ n.2.name = name ∧ n.1 ≠ [] ∧ n.1 = user := by
  induction notes generalizing refs with
  | nil => simp
  | cons n notes ih =>
    rw [List.foldl_cons, ih, mem_usersOf_note, List.exists_mem_cons_iff, or_assoc]

theorem names_addUser {m : Text} {users : List Text} (refs : List Entry) :
    (addUser m users refs).map Entry.name =
      if m ∈ refs.map Entry.name then refs.map Entry.name else refs.map Entry.name ++ [m] := by
  induction refs with
  | nil => rfl
  | cons e es ih =>
    by_cases he : e.name = m
    · simp [addUser, he]
    · have he' : ¬m = e.name := fun h => he h.symm
      simp only [addUser, if_neg he, List.map_cons, ih, List.mem_cons, he', false_or]
      split_ifs <;> rfl

theorem nodup_names_foldl (notes : List Note) {refs : List Entry}
    (h : (refs.map Entry.name).Nodup) : ((notes.foldl note refs).map Entry.name).Nodup := by
  induction notes generalizing refs with
  | nil => exact h
  | cons n notes ih =>
    refine ih ?_
    by_cases hestate : n.2.provider = .estate
    · rwa [note, if_pos hestate]
    · rw [note, if_neg hestate, names_addUser]
      split_ifs with hin
      · exact h
      · exact List.nodup_append.2 ⟨h, List.nodup_singleton _, fun a ha b hb =>
          fun hab => hin (List.mem_singleton.1 hb ▸ hab ▸ ha)⟩

theorem mem_unique {x : Text} : ∀ l : List Text, x ∈ unique l ↔ x ∈ l
  | [] => Iff.rfl
  | [_] => Iff.rfl
  | a :: b :: rest => by
    rw [unique]
    split_ifs with h
    · rw [mem_unique (b :: rest), h]
      simp
    · rw [List.mem_cons, mem_unique (b :: rest), List.mem_cons (l := b :: rest)]

@[simp] theorem mem_sortUnique {x : Text} {l : List Text} : x ∈ sortUnique l ↔ x ∈ l := by
  rw [sortUnique, mem_unique, List.mem_insertionSort]

theorem mem_usersOf_referencesOf :
    user ∈ usersOf (referencesOf d) name ↔
      ∃ n ∈ noted d, n.2.provider ≠ .estate ∧ n.2.name = name ∧ n.1 = user := by
  have hsort : ∀ refs : List Entry,
      user ∈ usersOf (refs.map fun e => { e with users := sortUnique e.users }) name ↔
        user ∈ usersOf refs name := by
    intro refs
    simp only [usersOf, List.mem_flatMap, List.mem_map, exists_exists_and_eq_and]
    refine exists_congr fun e => and_congr_right fun _ => ?_
    split_ifs
    · exact mem_sortUnique
    · rfl
  rw [referencesOf, hsort, mem_usersOf_foldl]
  simp only [usersOf, List.flatMap_nil, List.not_mem_nil, false_or]
  refine exists_congr fun n => and_congr_right fun hn => ?_
  simp only [ne_eq, noted_named hn, not_false_eq_true, true_and]

theorem nodup_names (d : Document) : ((referencesOf d).map Entry.name).Nodup := by
  rw [referencesOf, List.map_map]
  exact nodup_names_foldl _ List.nodup_nil

theorem find_users : ∀ {refs : List Entry}, (refs.map Entry.name).Nodup →
    ((refs.find? fun e => e.name = name).map Entry.users).getD [] = usersOf refs name
  | [], _ => rfl
  | e :: es, h => by
    rw [List.map_cons, List.nodup_cons] at h
    rw [usersOf_cons, ← find_users h.2, List.find?_cons]
    by_cases he : e.name = name
    · have hnone : es.find? (fun e => e.name = name) = none := by
        rw [List.find?_eq_none]
        intro x hx hname
        exact h.1 (List.mem_map.2 ⟨x, hx, (of_decide_eq_true hname).trans he.symm⟩)
      simp [he, hnone]
    · simp [he]

theorem referringTo_eq (d : Document) (name : Text) :
    referringTo d name = usersOf (referencesOf d) name := rfl

theorem referringTo_ne_nil :
    referringTo d name ≠ [] ↔ Noted d name := by
  have hmem : usersOf (referencesOf d) name ≠ [] ↔ ∃ user, user ∈ usersOf (referencesOf d) name :=
    ⟨List.exists_mem_of_ne_nil _, fun ⟨_, h⟩ => List.ne_nil_of_mem h⟩
  rw [referringTo_eq, hmem]
  simp only [mem_usersOf_referencesOf, Noted, RefersBy, List.mem_map, exists_exists_and_eq_and]
  constructor
  · rintro ⟨_, n, hn, hprovider, hname, -⟩
    exact ⟨n, hn, hname, hprovider⟩
  · rintro ⟨n, hn, hname, hprovider⟩
    exact ⟨n.1, n, hn, hprovider, hname, rfl⟩

theorem userOf_of_mem (h : user ∈ referringTo d name) :
    UserOf d name user := by
  obtain ⟨n, hn, hprovider, hname, rfl⟩ := mem_usersOf_referencesOf.1 h
  obtain ⟨b, hb, hin, hpre⟩ := noted_block hn
  exact ⟨b, hb, ⟨n.2, hin, hname, hprovider⟩, hpre⟩

theorem usedBy_eq {files : List Text} {e : Listed} (h : e ∈ secretList files d) :
    e.usedBy = referringTo d e.name := by
  obtain ⟨name, -, rfl⟩ := List.mem_map.1 h
  exact find_users (nodup_names d)

theorem exists_listed (files : List Text) (h : Noted d name) :
    ∃ e ∈ secretList files d, e.name = name := by
  obtain ⟨user, huser⟩ := List.exists_mem_of_ne_nil _ (referringTo_ne_nil.2 h)
  obtain ⟨e, he, hin⟩ := List.mem_flatMap.1 huser
  have hname : e.name = name := by
    by_contra hne
    rw [if_neg hne] at hin
    cases hin
  refine ⟨_, List.mem_map.2 ⟨name, ?_, rfl⟩, rfl⟩
  rw [mem_sortUnique]
  exact List.mem_append_left _ (List.mem_map.2 ⟨e, he, hname⟩)

/-- The walk and the list are honest. -/
theorem honest (d : Document) : Honest d :=
  ⟨fun _ _ h => userOf_of_mem h, fun _ _ he _ hu => userOf_of_mem (usedBy_eq he ▸ hu)⟩

/-- The secrets are reported exactly where the walk covers the document. -/
theorem reported_iff (d : Document) : Reported d ↔ Covered d := by
  constructor
  · intro h name hpassed
    exact referringTo_ne_nil.1 (h name ((refers_iff d name).2 (.inr hpassed))).1
  · intro h name hrefers
    have hnoted : Noted d name := ((refers_iff d name).1 hrefers).elim id (h name)
    refine ⟨referringTo_ne_nil.2 hnoted, fun files => ?_⟩
    obtain ⟨e, he, rfl⟩ := exists_listed files hnoted
    exact ⟨e, he, rfl, usedBy_eq he ▸ referringTo_ne_nil.2 hnoted⟩

/-! ## What forgetting takes away -/

/-- A credential goes : the configuration that remains can be read and does not name it where the
walk reads, and nothing stops its removal. -/
def Goes (after : Option Document) (secretError : Text → Option String) (name : Text) : Prop :=
  (∃ d, after = some d ∧ ¬Noted d name) ∧ nameFault name = none ∧ secretError name = none

theorem still_used_iff {after : Option Document} :
    (after.all fun d => !(referringTo d name).isEmpty) = true ↔
      ¬∃ d, after = some d ∧ ¬Noted d name := by
  cases after with
  | none => simp
  | some d =>
    rw [Option.all_some, Bool.not_eq_true', List.isEmpty_eq_false_iff, referringTo_ne_nil]
    simp

theorem forgetOne_spec (after : Option Document) (s : Forgetting) (name : Text) :
    (forgetOne after s name).dir.dropIns = s.dir.dropIns ∧
      (forgetOne after s name).dir.secretError = s.dir.secretError ∧
      ∀ n, n ∈ (forgetOne after s name).dir.secrets ↔
        n ∈ s.dir.secrets ∧ ¬(n = name ∧ Goes after s.dir.secretError n) := by
  have hstays : ¬(name ∈ s.dir.secrets ∧ Goes after s.dir.secretError name) → ∀ n,
      n ∈ s.dir.secrets ↔ n ∈ s.dir.secrets ∧ ¬(n = name ∧ Goes after s.dir.secretError n) :=
    fun hno n => ⟨fun hn => ⟨hn, fun ⟨hname, hgoes⟩ => hno (hname ▸ ⟨hn, hgoes⟩)⟩, And.left⟩
  rw [forgetOne]
  split_ifs with hused hthere
  · exact ⟨rfl, rfl, hstays fun h => still_used_iff.1 hused h.2.1⟩
  · refine ⟨rfl, rfl, hstays fun h => ?_⟩
    rcases hthere with hfault | hfile
    · rw [h.2.2.1] at hfault
      cases hfault
    · exact hfile h.1
  · rw [not_or, Option.not_isSome_iff_eq_none, not_not] at hthere
    rw [storeRemove, hthere.1]
    cases herr : s.dir.secretError name with
    | some why =>
      refine ⟨rfl, rfl, hstays fun h => ?_⟩
      rw [h.2.2.2] at herr
      cases herr
    | none =>
      have hgoes : Goes after s.dir.secretError name :=
        ⟨not_not.1 (mt still_used_iff.2 hused), hthere.1, herr⟩
      refine ⟨rfl, rfl, fun n => ?_⟩
      rw [List.mem_filter, decide_eq_true_iff]
      exact and_congr_right fun _ => ⟨fun hne h => hne h.1, fun h hname => h ⟨hname, hname ▸ hgoes⟩⟩

theorem forgets_spec (after : Option Document) (names : List Text) (s : Forgetting) :
    (names.foldl (forgetOne after) s).dir.dropIns = s.dir.dropIns ∧
      ∀ n, n ∈ (names.foldl (forgetOne after) s).dir.secrets ↔
        n ∈ s.dir.secrets ∧ ¬(n ∈ names ∧ Goes after s.dir.secretError n) := by
  induction names generalizing s with
  | nil => simp
  | cons name names ih =>
    obtain ⟨hdrop, herr, hfiles⟩ := forgetOne_spec after s name
    obtain ⟨ihdrop, ihfiles⟩ := ih (forgetOne after s name)
    refine ⟨ihdrop.trans hdrop, fun n => ?_⟩
    rw [List.foldl_cons, ihfiles, hfiles, herr, List.mem_cons]
    tauto

/-- Nothing in the configuration that remains refers to a credential that forgetting took away. -/
def Spares (compile : Compiler) (dir : Directory) (document : Option Document) (id : Text) :
    Prop :=
  let rest := (wifiProfileForget compile dir document id).1
  ∀ after, compile rest.dropIns = .ok after →
    ∀ name ∈ dir.secrets, name ∉ rest.secrets → ¬Refers after name

/-- Whatever the forgotten network names and can be removed, the configuration without it names
where the walk reads, if it names it where the walk does not. -/
def CoveredWithout (compile : Compiler) (dir : Directory) (document : Option Document)
    (id : Text) : Prop :=
  ∀ d network rest after, document = some d → d.networks.find? (fun n => n.id = id) = some network →
    nameFault id = none → removeDropIn compile dir ("wifi-".toList ++ id) = (rest, .ok true) →
    compile rest.dropIns = .ok after →
    ∀ name ∈ namedBy network.security, name ∈ dir.secrets → nameFault name = none →
      dir.secretError name = none → RefersBy (passedOver after) name → Noted after name

theorem removeDropIn_frame (compile : Compiler) (dir : Directory) (name : Text) :
    (removeDropIn compile dir name).1.secrets = dir.secrets ∧
      (removeDropIn compile dir name).1.secretError = dir.secretError := by
  rw [removeDropIn]
  cases nameFault name with
  | some why => exact ⟨rfl, rfl⟩
  | none =>
    by_cases hthere : (dir.dropIns.any fun f => f.1 = name) = true
    · simp only [if_pos hthere]
      cases dir.dropInError with
      | some why => exact ⟨rfl, rfl⟩
      | none =>
        dsimp only
        split <;> exact ⟨rfl, rfl⟩
    · simp only [if_neg hthere, and_self]

theorem wifiProfileForget_cases (compile : Compiler) (dir : Directory)
    (document : Option Document) (id : Text) :
    (wifiProfileForget compile dir document id).1.secrets = dir.secrets ∧
        (¬∃ d network rest, document = some d ∧
          d.networks.find? (fun n => n.id = id) = some network ∧ nameFault id = none ∧
          removeDropIn compile dir ("wifi-".toList ++ id) = (rest, .ok true)) ∨
      ∃ d network rest, document = some d ∧
        d.networks.find? (fun n => n.id = id) = some network ∧ nameFault id = none ∧
        removeDropIn compile dir ("wifi-".toList ++ id) = (rest, .ok true) ∧
        (wifiProfileForget compile dir document id).1 =
          ((namedBy network.security).foldl (forgetOne (compile rest.dropIns).toOption)
            { dir := rest }).dir := by
  have hframe := removeDropIn_frame compile dir ("wifi-".toList ++ id)
  unfold wifiProfileForget
  cases hfault : nameFault id with
  | some why => exact .inl ⟨rfl, fun ⟨_, _, _, _, _, h, _⟩ => nomatch h⟩
  | none =>
    cases document with
    | none => exact .inl ⟨rfl, fun ⟨_, _, _, h, _⟩ => nomatch h⟩
    | some d =>
      cases hfind : d.networks.find? fun n => n.id = id with
      | none =>
        refine .inl ⟨by simp only [hfind], ?_⟩
        rintro ⟨_, network, _, ⟨⟩, h, -⟩
        rw [hfind] at h
        cases h
      | some network =>
        simp only [hfind]
        rcases hremove : removeDropIn compile dir ("wifi-".toList ++ id) with ⟨rest, why | _ | _⟩
        · rw [hremove] at hframe
          refine .inl ⟨hframe.1, ?_⟩
          rintro ⟨_, _, _, -, -, -, ⟨⟩⟩
        · rw [hremove] at hframe
          refine .inl ⟨hframe.1, ?_⟩
          rintro ⟨_, _, _, -, -, -, ⟨⟩⟩
        · exact .inr ⟨d, network, rest, rfl, hfind, trivial, rfl, rfl⟩

/-- A secret is spared exactly where what is left without it is covered. -/
theorem spares_iff (compile : Compiler) (dir : Directory) (document : Option Document)
    (id : Text) : Spares compile dir document id ↔ CoveredWithout compile dir document id := by
  rcases wifiProfileForget_cases compile dir document id with ⟨hsame, hno⟩ |
    ⟨d, network, rest, rfl, hfind, hid, hremove, hresult⟩
  · constructor
    · intro _ d network rest after hd hfind hid hremove
      exact absurd ⟨d, network, rest, hd, hfind, hid, hremove⟩ hno
    · intro _ after _ name hin hgone
      exact absurd (hsame ▸ hin) hgone
  · obtain ⟨hsecrets, herror⟩ :
      rest.secrets = dir.secrets ∧ rest.secretError = dir.secretError := by
      have := removeDropIn_frame compile dir ("wifi-".toList ++ id)
      rwa [hremove] at this
    obtain ⟨hdrop, hfiles⟩ := forgets_spec (compile rest.dropIns).toOption
      (namedBy network.security) { dir := rest }
    dsimp only at hdrop hfiles
    rw [← hresult, hsecrets, herror] at hfiles
    rw [← hresult] at hdrop
    constructor
    · intro h d' network' rest' after hd' hfind' _ hremove' hafter name hnamed hin hname herr hpassed
      obtain rfl := Option.some.inj hd'
      obtain rfl := Option.some.inj (hfind.symm.trans hfind')
      obtain rfl : rest = rest' := congrArg Prod.fst (hremove.symm.trans hremove')
      by_contra hnoted
      have hgoes : Goes (compile rest.dropIns).toOption dir.secretError name :=
        ⟨⟨after, by rw [hafter]; rfl, hnoted⟩, hname, herr⟩
      refine h after (hdrop ▸ hafter) name hin (fun hstill => ?_)
        ((refers_iff _ _).2 (.inr hpassed))
      exact ((hfiles name).1 hstill).2 ⟨hnamed, hgoes⟩
    · intro h after hafter name hin hgone hrefers
      rw [hdrop] at hafter
      rw [hfiles, not_and, not_not] at hgone
      obtain ⟨hnamed, ⟨a, ha, hnoted⟩, hname, herr⟩ := hgone hin
      obtain rfl : after = a := by
        rw [hafter] at ha
        exact Option.some.inj ha
      rcases (refers_iff _ _).1 hrefers with hno | hpassed
      · exact hnoted hno
      · exact hnoted (h d network rest after rfl hfind hid hremove hafter name hnamed hin hname herr
          hpassed)

/-- Credentials in use are reported in use, by their users alone, and none of them is forgotten,
exactly where what the walk passes over is named where it reads as well. -/
theorem credentials_reported (d : Document) :
    (Reported d ∧ Honest d ↔ Covered d) ∧
      ∀ compile dir document id,
        Spares compile dir document id ↔ CoveredWithout compile dir document id :=
  ⟨⟨fun h => (reported_iff d).1 h.1, fun h => ⟨(reported_iff d).2 h, honest d⟩⟩, spares_iff⟩

/-- A wired port that authenticates with a CA certificate of the store. -/
def wiredPort : Document where
  interfaces := [{ name := "eth0".toList
                   dot1x := some { caCert := some (.stored { name := "corp-ca".toList }) } }]

def office : Document :=
  { wiredPort with
    networks := [{ id := "office".toList
                   security :=
                     .eap { caCert := some (.stored { name := "corp-ca".toList }) } }] }

/-- A configuration in two files : the port's, and the network's, which is a drop-in. -/
def officeCompiler : Compiler := fun dropIns =>
  .ok (if dropIns = [] then wiredPort else office)

/-- The directory of that configuration, with the certificate in its store. -/
def officeDirectory : Directory where
  dropIns := [("wifi-office".toList, [])]
  secrets := ["corp-ca".toList]

/-- The certificate of the port is reported unused, and forgetting the network takes it away. -/
theorem certificate_of_port_lost :
    ¬Reported wiredPort ∧
      ¬Spares officeCompiler officeDirectory (some office) "office".toList := by
  have hrefers : Refers wiredPort "corp-ca".toList :=
    ⟨_, List.mem_cons_self, _, List.mem_cons_self, rfl, by decide⟩
  refine ⟨fun h => (h _ hrefers).1 (by decide +kernel), fun h => ?_⟩
  have hempty : (wifiProfileForget officeCompiler officeDirectory (some office)
      "office".toList).1.dropIns = [] := by decide +kernel
  exact h wiredPort (congrArg Except.ok (if_pos hempty)) _ (List.mem_singleton.2 rfl)
    (by decide +kernel) hrefers

end Netcfgd.SecretWalk
