import Mathlib.Data.List.MinMax
import Netcfgd.SupplicantCarries

/-!
# Joining a network by its name

`ncfg_wifi_connect` of `src/daemon/wifi.c` and `ncfg_service_set_profiles` of
`src/apply/wifi_ops.c`, against a supplicant that answers as it is documented to : `ADD_NETWORK`
gives a number that is not in use, `SET_NETWORK` sets a variable of a number or refuses it,
`LIST_NETWORKS` lists every number with its SSID, `SELECT_NETWORK` enables one number and disables
the others. The rows of the list are those `Supplicant.parseNetworkList` reads back
(`Supplicant.rows_survive`).

A network that states its SSID is looked for in the list by that SSID, and the first entry that has
it is selected, whatever block it was made of. `selects_iff` says for which configurations every
join that succeeds selects an entry with the block's own settings : those in which entries that show
one SSID are rendered alike. A join that fails before selecting leaves the list as it was, always
(`connect_refused`).
-/

namespace Netcfgd.WifiJoin

open Json (asciis ascii)
open Supplicant (Bytes Str Resolver EapConfig Mesh MacPolicy Setting Scan cString
  hexBytes networkSettings wiredSettings meshSettings settingValue settingCommand settingRedacted
  ssidArgument)

/-! ## The supplicant -/

def ssidOf (held : List (String × Bytes)) : Bytes :=
  ((held.filter fun v => v.1 = "ssid").getLast?.bind fun v => hexBytes v.2).getD []

/-- An entry of the list : what it was set, in order. -/
structure Slot where
  id : ℕ
  held : List (String × Bytes)
  enabled : Bool

/-- The networks a supplicant holds, each under a number of its own. -/
@[ext]
structure Slots where
  list : List Slot
  nodup : (list.map Slot.id).Nodup

/-- What is left open of a supplicant : the numbers it gives, the variables it takes, and the
settings of its own it has. -/
structure Behaviour where
  fresh : List ℕ → ℕ
  fresh_not_mem : ∀ ids, fresh ids ∉ ids
  takes : String → Bytes → Bool
  sets : String → Bool

namespace Slots

/-- No networks, and `REMOVE_NETWORK all`. -/
def empty : Slots := ⟨[], List.nodup_nil⟩

def adjust (s : Slots) (f : Slot → Slot) (hf : ∀ slot, (f slot).id = slot.id) : Slots :=
  ⟨s.list.map f, by
    rw [List.map_map, show Slot.id ∘ f = Slot.id from funext hf]
    exact s.nodup⟩

/-- The number `ADD_NETWORK` gives. -/
def fresh (s : Slots) (b : Behaviour) : ℕ := b.fresh (s.list.map Slot.id)

/-- `ADD_NETWORK`. -/
def add (s : Slots) (b : Behaviour) : Slots :=
  ⟨s.list ++ [⟨s.fresh b, [], false⟩], by
    rw [List.map_append, List.map_singleton, ← List.concat_eq_append]
    exact s.nodup.concat (b.fresh_not_mem _)⟩

/-- `SET_NETWORK`. -/
def set (s : Slots) (id : ℕ) (name : String) (value : Bytes) : Slots :=
  s.adjust (fun slot => if slot.id = id then
    { slot with held := slot.held ++ [(name, value)] } else slot)
    fun slot => by split <;> rfl

/-- `REMOVE_NETWORK`. -/
def remove (s : Slots) (id : ℕ) : Slots :=
  ⟨s.list.filter fun slot => slot.id ≠ id, s.nodup.sublist (List.filter_sublist.map _)⟩

/-- `ENABLE_NETWORK` and `DISABLE_NETWORK`. -/
def enable (s : Slots) (id : ℕ) (on : Bool) : Slots :=
  s.adjust (fun slot => if slot.id = id then { slot with enabled := on } else slot)
    fun slot => by split <;> rfl

/-- `DISABLE_NETWORK all`. -/
def disableAll (s : Slots) : Slots := s.adjust (fun slot => { slot with enabled := false })
  fun _ => rfl

/-- `SELECT_NETWORK`. -/
def select (s : Slots) (id : ℕ) : Slots :=
  s.adjust (fun slot => { slot with enabled := slot.id = id }) fun _ => rfl

end Slots

/-! ## The configuration -/

/-- `ncfg_wifi_network_t`, under its label. -/
structure Block (ρ σ : Type) where
  id : String
  wifi : Supplicant.WifiNetwork ρ σ

/-- What a document has for one radio, and where its credentials come from. The labels of the
networks differ, as `ncfg_document_validate` has it. A mesh stands under its label. -/
structure Config (ρ σ : Type) where
  interface : String
  networks : List (Block ρ σ)
  ids : (networks.map Block.id).Nodup
  dot1x : Option (EapConfig ρ σ)
  mesh : Option (String × Mesh ρ)
  macPolicy : MacPolicy
  randomise : Bool
  joins : Bool
  resolver : Resolver ρ σ

variable {ρ σ : Type}

/-! ## Adding a network -/

/-- `same_address`. -/
def sameAddress (one other : Bytes) : Bool :=
  let lower := fun c : UInt8 => if 65 ≤ c.toNat ∧ c.toNat ≤ 90 then c + 32 else c
  one.map lower = other.map lower

def addressText (text : Bytes) : String := String.ofList (text.map fun c => Char.ofNat c.toNat)

/-- `ssid_hex`. -/
def ssidHex (ssid : Bytes) : String := addressText ((ssidArgument ssid).getD [])

/-- `ncfg_supplicant_pick_ssid` : the access points that are in range and say a name have to agree
on it. -/
def pickSsid (block : Block ρ σ) (seen : List Scan) : Except String Bytes :=
  let found := block.wifi.bssid.filterMap fun wanted =>
    (seen.find? fun row => sameAddress row.bssid wanted.bytes).map (wanted, ·)
  match found.filter fun row => row.2.ssid ≠ [] with
  | [] =>
    if found.isEmpty then
      .error ("none of the access points \x60" ++ block.id ++ "\x60 names is in range, so its " ++
        "network name could not be read: " ++
        ", ".intercalate (block.wifi.bssid.map fun wanted => addressText wanted.bytes))
    else
      .error ("the access points \x60" ++ block.id ++ "\x60 names are in range and hidden, so a " ++
        "scan cannot say what the network is called: " ++
        ", ".intercalate (found.map fun row => addressText row.1.bytes) ++ ". Write the name in " ++
        "the block -- \x60ssid = \"...\"\x60 -- and keep \x60bssid\x60 to pin which radios it " ++
        "may use")
  | advertised :: rest =>
    match rest.find? fun row => row.2.ssid ≠ advertised.2.ssid with
    | none => .ok advertised.2.ssid
    | some row =>
      .error ("\x60" ++ block.id ++ "\x60 lists access points that are on different networks: " ++
        addressText advertised.1.bytes ++ " advertises " ++ ssidHex advertised.2.ssid ++ " and " ++
        addressText row.1.bytes ++ " advertises " ++ ssidHex row.2.ssid)

/-- The name a network is added under, where its block leaves it to a scan. -/
def learnSsid (block : Block ρ σ) (seen : List Scan) : Except String (Option Bytes) :=
  if block.wifi.ssid.isSome then .ok none else (pickSsid block seen).map some

/-- A setting as the messages about it quote it. -/
def settingShown (id : ℕ) (setting : Setting ρ) : String :=
  addressText ((settingRedacted id setting).toOption.getD [])

/-- The value a `SET_NETWORK` command carries, where it can be sent. -/
def valueSent (resolver : Resolver ρ σ) (id : ℕ) (setting : Setting ρ) : Except String Bytes :=
  match settingRedacted id setting, settingCommand resolver id setting,
      settingValue resolver setting with
  | .ok _, .ok line, .ok value =>
    if (cString line).any fun c => c = 10 || c = 13 then
      .error (settingShown id setting ++
        " was refused: a control command cannot contain a newline")
    else .ok (cString value)
  | .error why, _, _ => .error why
  | _, .error why, _ => .error (settingShown id setting ++ " could not be built: " ++ why)
  | _, _, .error why => .error (settingShown id setting ++ " could not be built: " ++ why)

/-- `send_setting`, of one setting after another. -/
def sendSettings (b : Behaviour) (resolver : Resolver ρ σ) (id : ℕ) :
    List (Setting ρ) → Slots → Slots × Except String Unit
  | [], s => (s, .ok ())
  | setting :: rest, s =>
    match valueSent resolver id setting with
    | .error why => (s, .error why)
    | .ok value =>
      if b.takes setting.name value then
        sendSettings b resolver id rest (s.set id setting.name value)
      else (s, .error (settingShown id setting ++ " was refused: the supplicant answered FAIL"))

/-- `populate`. What is half there is removed again. -/
def populate (b : Behaviour) (resolver : Resolver ρ σ) (settings : List (Setting ρ)) (s : Slots) :
    Slots × Except String ℕ :=
  match sendSettings b resolver (s.fresh b) settings (s.add b) with
  | (sent, .ok ()) => (sent, .ok (s.fresh b))
  | (sent, .error why) => (sent.remove (s.fresh b), .error why)

/-- What a network of the document is rendered to, under the radio's own address policy. -/
def Config.settings (c : Config ρ σ) (block : Block ρ σ) (seen : List Scan) : Supplicant.Adds ρ :=
  (learnSsid block seen).bind fun resolved =>
    networkSettings c.resolver block.wifi resolved c.macPolicy

/-- `ncfg_supplicant_add_network`. -/
def addNetwork (b : Behaviour) (c : Config ρ σ) (block : Block ρ σ) (seen : List Scan) (s : Slots) :
    Slots × Except String ℕ :=
  match c.settings block seen with
  | .error why => (s, .error why)
  | .ok settings =>
    match populate b c.resolver settings s with
    | (s, .error why) => (s, .error why)
    | (s, .ok id) => (s.enable id block.wifi.autoconnect, .ok id)

/-! ## Populating a radio -/

/-- `ncfg_supplicant_configure_wired` and `ncfg_supplicant_configure_mesh` : one network and no
other, put to use. `refused` stands before the message of what went wrong. -/
def configureAlone (b : Behaviour) (resolver : Resolver ρ σ) (refused : String)
    (settings : Supplicant.Adds ρ) (use : Slots → ℕ → Slots) : Slots × Except String Unit :=
  match settings with
  | .error why => (.empty, .error (refused ++ why))
  | .ok settings =>
    match populate b resolver settings .empty with
    | (s, .error why) => (s, .error (refused ++ why))
    | (s, .ok id) => (use s id, .ok ())

/-- The networks of the document, up to the first that is refused. -/
def addNetworks (b : Behaviour) (c : Config ρ σ) (seen : List Scan) :
    List (Block ρ σ) → Slots → Slots × Except String Unit
  | [], s => (s, .ok ())
  | block :: rest, s =>
    match addNetwork b c block seen s with
    | (s, .error why) =>
      (s, .error ("could not give \x60" ++ block.id ++ "\x60 to " ++ c.interface ++ ": " ++ why))
    | (s, .ok _) => addNetworks b c seen rest s

/-- `enable_only` : nothing where the record or the length of the list does not match. -/
def enableOnly (c : Config ρ σ) (recorded : Bool) (s : Slots) : Option Slots :=
  if !c.joins || c.networks.isEmpty || !recorded || s.list.length ≠ c.networks.length then none
  else
    some (((s.list.filter fun slot => !slot.enabled && (c.networks.find? fun block =>
      block.wifi.ssid = some (ssidOf slot.held)).any fun block => block.wifi.autoconnect).map
        Slot.id).foldl (fun s id => s.enable id true) s)

/-- `ncfg_supplicant_rand_addr_lifetime_value`. -/
def lifetimeValue : MacPolicy → String
  | .perConnection => "0"
  | .permanent | .perNetwork => "60"

/-- `ncfg_supplicant_command`, of a command that is answered `FAIL`. -/
def answeredFail (command : String) : String :=
  "\x60" ++ command ++ "\x60 answered FAIL rather than OK"

/-- `ncfg_service_set_profiles`, once `reach` says what comes of reaching the supplicant.
`recorded` is `record_matches`. -/
def setProfiles (b : Behaviour) (c : Config ρ σ) (reach : Except String Unit) (recorded : Bool)
    (seen : List Scan) (s : Slots) : Slots × Except String Unit :=
  match reach with
  | .error why => (s, .error why)
  | .ok () =>
    match c.dot1x, c.mesh with
    | some eap, _ =>
      configureAlone b c.resolver ("could not configure 802.1X on " ++ c.interface ++ ": ")
        (wiredSettings c.resolver eap) fun s id => s.enable id true
    | none, some (label, mesh) =>
      configureAlone b c.resolver
        ("could not join " ++ c.interface ++ " to mesh \x60" ++ label ++ "\x60: ")
        (meshSettings c.resolver mesh) fun s id => s.select id
    | none, none =>
      match enableOnly c recorded s with
      | some s => (s, .ok ())
      | none =>
        if !b.sets "rand_addr_lifetime" then
          (.empty, .error ("could not set the random address lifetime on " ++ c.interface ++ ": " ++
            answeredFail ("SET rand_addr_lifetime " ++ lifetimeValue c.macPolicy)))
        else if !b.sets "preassoc_mac_addr" then
          (.empty, .error ("could not set the scanning address policy on " ++ c.interface ++ ": " ++
            answeredFail ("SET preassoc_mac_addr " ++ if c.randomise then "1" else "0")))
        else
          match addNetworks b c seen c.networks .empty with
          | (s, .error why) => (s, .error why)
          | (s, .ok ()) => (if c.joins then s else s.disableAll, .ok ())

/-! ## Joining -/

/-- What comes of a join : it failed before anything was selected, or an entry was selected and it
is reported what came of that. -/
inductive Outcome
  | refused (why : String)
  | selected (id : ℕ) (result : Except String Unit)

/-- What happens around a join : what is checked before the network is looked up, what comes of
reaching the supplicant, what the last scan has seen, and what comes of listening and waiting. -/
structure Attempt where
  checked : Except String Unit
  reach : Except String Unit
  seen : List Scan
  listening : Bool
  joined : Except String Unit

/-- `SELECT_NETWORK`, and the wait. -/
def join (c : Config ρ σ) (attempt : Attempt) (wanted : String) (id : ℕ) (s : Slots) :
    Slots × Outcome :=
  (s.select id, .selected id
    (if attempt.listening then attempt.joined.mapError fun why =>
      "\x60" ++ wanted ++ "\x60 did not join on \x60" ++ c.interface ++ "\x60: " ++ why
    else .error ("\x60" ++ wanted ++ "\x60 was selected on \x60" ++ c.interface ++ "\x60, but " ++
      "netcfgd could not listen for the result, so it cannot say whether the join worked. " ++
      "\x60ncfg wifi status " ++ c.interface ++ "\x60 reports what the supplicant is doing now")))

/-- `ncfg_wifi_connect`. -/
def connect (b : Behaviour) (c : Config ρ σ) (attempt : Attempt) (wanted : String) (s : Slots) :
    Slots × Outcome :=
  match attempt.checked with
  | .error why => (s, .refused why)
  | .ok () =>
    match c.networks.find? fun block => block.id = wanted with
    | none =>
      (s, .refused ("no \x60network\x60 block called \x60" ++ wanted ++ "\x60. This joins " ++
        "networks the configuration already describes; \x60ncfg wifi add\x60 writes a new one. " ++
        "Configured: " ++ if c.networks.isEmpty then "none" else
          ", ".intercalate (c.networks.map Block.id)))
    | some block =>
      match attempt.reach with
      | .error why => (s, .refused why)
      | .ok () =>
        match block.wifi.ssid.bind fun ssid =>
            s.list.find? fun slot => ssidOf slot.held = ssid with
        | some slot => join c attempt wanted slot.id s
        | none =>
          match addNetwork b c block attempt.seen s with
          | (s, .error why) =>
            (s, .refused ("cannot configure \x60" ++ wanted ++ "\x60: " ++ why))
          | (s, .ok id) => join c attempt wanted id s

/-! ## Runs -/

/-- A call of the daemon on a radio. -/
inductive Call (ρ σ : Type)
  | setProfiles (c : Config ρ σ) (reach : Except String Unit) (recorded : Bool) (seen : List Scan)
  | connect (c : Config ρ σ) (attempt : Attempt) (wanted : String)

def Call.config : Call ρ σ → Config ρ σ
  | .setProfiles c _ _ _ => c
  | .connect c _ _ => c

def Call.run (b : Behaviour) (s : Slots) : Call ρ σ → Slots
  | .setProfiles c reach recorded seen => (Netcfgd.WifiJoin.setProfiles b c reach recorded seen s).1
  | .connect c attempt wanted => (Netcfgd.WifiJoin.connect b c attempt wanted s).1

def HeldAs (resolver : Resolver ρ σ) : List (Setting ρ) → List (String × Bytes) → Prop :=
  List.Forall₂ fun setting v => v.1 = setting.name ∧
    ∃ value, settingValue resolver setting = .ok value ∧ v.2 = cString value

def Config.Renders (c : Config ρ σ) (block : Block ρ σ) (seen : List Scan)
    (held : List (String × Bytes)) : Prop :=
  ∃ settings, c.settings block seen = .ok settings ∧ HeldAs c.resolver settings held

/-- A join that succeeds has the one entry enabled that it selected, with the settings of the block
that was asked for. A join that fails before it selects leaves the list as it was. -/
def Right (b : Behaviour) (s : Slots) : Call ρ σ → Prop
  | .setProfiles _ _ _ _ => True
  | .connect c attempt wanted =>
    match connect b c attempt wanted s with
    | (s', .refused _) => s' = s
    | (s', .selected id result) => result = .ok () → ∃ block ∈ c.networks, block.id = wanted ∧
        ∃ slot ∈ s'.list, slot.id = id ∧ c.Renders block attempt.seen slot.held ∧
          ∀ other ∈ s'.list, other.enabled = true ↔ other = slot

/-- Every join of a run is right. -/
def AllRight (b : Behaviour) : Slots → List (Call ρ σ) → Prop
  | _, [] => True
  | s, call :: calls => Right b s call ∧ AllRight b (call.run b s) calls

def SentAs (resolver : Resolver ρ σ) (id : ℕ) : List (Setting ρ) → List (String × Bytes) → Prop :=
  List.Forall₂ fun setting v => v.1 = setting.name ∧ valueSent resolver id setting = .ok v.2

/-- The settings a radio may be given : a network's, or those of its only population. -/
inductive Config.Gives (c : Config ρ σ) : List (Setting ρ) → Prop
  | network {block : Block ρ σ} {seen : List Scan} {settings : List (Setting ρ)}
      (hblock : block ∈ c.networks) (h : c.settings block seen = .ok settings) : c.Gives settings
  | wired {eap : EapConfig ρ σ} {settings : List (Setting ρ)} (hdot1x : c.dot1x = some eap)
      (h : wiredSettings c.resolver eap = .ok settings) : c.Gives settings
  | mesh {label : String} {point : Mesh ρ} {settings : List (Setting ρ)} (hdot1x : c.dot1x = none)
      (hmesh : c.mesh = some (label, point)) (h : meshSettings c.resolver point = .ok settings) :
      c.Gives settings

/-- What may be held after calls with these configurations. -/
def Given (configs : Set (Config ρ σ)) (held : List (String × Bytes)) : Prop :=
  ∃ c ∈ configs, ∃ settings id, c.Gives settings ∧ SentAs c.resolver id settings held

/-- Whatever entry shows the SSID that a block states holds what that block is rendered to. -/
def Apart (configs : Set (Config ρ σ)) : Prop :=
  ∀ held, Given configs held → ∀ c ∈ configs, ∀ block ∈ c.networks,
    block.wifi.ssid = some (ssidOf held) → ∀ seen, c.Renders block seen held

/-! ## Sending -/

variable {resolver : Resolver ρ σ}

theorem valueSent_value {id : ℕ} {setting : Setting ρ} {value : Bytes}
    (h : valueSent resolver id setting = .ok value) :
    ∃ v, settingValue resolver setting = .ok v ∧ value = cString v := by
  unfold valueSent at h
  split at h
  · rename_i value' _ _ hvalue
    split_ifs at h
    exact ⟨value', hvalue, (Except.ok.inj h).symm⟩
  all_goals cases h

variable {settings : List (Setting ρ)} {held : List (String × Bytes)}

theorem SentAs.heldAs {id : ℕ} (h : SentAs resolver id settings held) :
    HeldAs resolver settings held :=
  h.imp fun _ _ ⟨hname, hvalue⟩ => ⟨hname, valueSent_value hvalue⟩

theorem set_list (s : Slots) (id : ℕ) (name : String) (value : Bytes) :
    (s.set id name value).list = s.list.map fun slot =>
      if slot.id = id then { slot with held := slot.held ++ [(name, value)] } else slot := rfl

theorem sendSettings_frame (b : Behaviour) (resolver : Resolver ρ σ) (id : ℕ) :
    ∀ (settings : List (Setting ρ)) (s : Slots),
      (sendSettings b resolver id settings s).1.list.filter (fun slot => slot.id ≠ id) =
        s.list.filter fun slot => slot.id ≠ id
  | [], _ => rfl
  | setting :: rest, s => by
    rw [sendSettings]
    split
    · rfl
    · rename_i value _
      split_ifs
      · rw [sendSettings_frame b resolver id rest, set_list, List.filter_map]
        have hkeep : (fun slot : Slot => decide (slot.id ≠ id)) ∘ (fun slot =>
            if slot.id = id then { slot with held := slot.held ++ [(setting.name, value)] }
            else slot) = fun slot => decide (slot.id ≠ id) := by
          funext slot
          by_cases h : slot.id = id <;> simp [h]
        rw [hkeep]
        refine (List.map_congr_left fun slot hslot => ?_).trans (List.map_id _)
        have hne : slot.id ≠ id := by simpa using (List.mem_filter.1 hslot).2
        rw [if_neg hne]
        rfl
      · rfl

variable {b : Behaviour}

theorem sendSettings_ok {id : ℕ} :
    ∀ (settings : List (Setting ρ)) (s : Slots),
      (sendSettings b resolver id settings s).2 = .ok () →
      ∃ held, SentAs resolver id settings held ∧
        (sendSettings b resolver id settings s).1.list = s.list.map fun slot =>
          if slot.id = id then { slot with held := slot.held ++ held } else slot
  | [], s, _ => by
    refine ⟨[], .nil, ?_⟩
    simp [sendSettings]
  | setting :: rest, s, h => by
    rw [sendSettings] at h ⊢
    split at h
    · cases h
    · rename_i value hvalue
      split_ifs at h ⊢ with htakes
      obtain ⟨held, hsent, hlist⟩ := sendSettings_ok rest (s.set id setting.name value) h
      refine ⟨(setting.name, value) :: held, .cons ⟨rfl, hvalue⟩ hsent, ?_⟩
      rw [hlist, set_list, List.map_map]
      refine List.map_congr_left fun slot _ => ?_
      by_cases hid : slot.id = id <;> simp [hid]

theorem sendSettings_taken (htakes : ∀ name value, b.takes name value = true) {id : ℕ} :
    ∀ {settings : List (Setting ρ)}
    {held : List (String × Bytes)} (s : Slots), SentAs resolver id settings held →
      (sendSettings b resolver id settings s).2 = .ok () ∧
        (sendSettings b resolver id settings s).1.list = s.list.map fun slot =>
          if slot.id = id then { slot with held := slot.held ++ held } else slot
  | _, _, s, .nil => by simp [sendSettings]
  | setting :: rest, v :: held, s, .cons ⟨hname, hvalue⟩ hsent => by
    obtain ⟨hok, hlist⟩ := sendSettings_taken htakes (s.set id setting.name v.2) hsent
    rw [sendSettings, hvalue]
    dsimp only
    rw [if_pos (htakes _ _)]
    refine ⟨hok, ?_⟩
    rw [hlist, set_list, List.map_map]
    refine List.map_congr_left fun slot _ => ?_
    by_cases hid : slot.id = id <;> simp [hid, ← hname]

/-! ## Populating -/

theorem fresh_not_mem (b : Behaviour) (s : Slots) : ∀ slot ∈ s.list, slot.id ≠ s.fresh b :=
  fun slot hslot h => b.fresh_not_mem _ (List.mem_map.2 ⟨slot, hslot, h⟩)

theorem add_held (b : Behaviour) (s : Slots) (held : List (String × Bytes)) :
    ((s.add b).list.map fun slot =>
      if slot.id = s.fresh b then { slot with held := slot.held ++ held } else slot) =
        s.list ++ [⟨s.fresh b, held, false⟩] := by
  have hsame : (s.list.map fun slot : Slot =>
      if slot.id = s.fresh b then { slot with held := slot.held ++ held } else slot) = s.list :=
    (List.map_congr_left fun slot hslot => if_neg (fresh_not_mem b s slot hslot)).trans
      (List.map_id _)
  rw [Slots.add, List.map_append, hsame]
  simp

theorem populate_cases (b : Behaviour) (resolver : Resolver ρ σ) (settings : List (Setting ρ))
    (s : Slots) :
    (∃ held, SentAs resolver (s.fresh b) settings held ∧
      (populate b resolver settings s).2 = .ok (s.fresh b) ∧
      (populate b resolver settings s).1.list = s.list ++ [⟨s.fresh b, held, false⟩]) ∨
    ∃ why, populate b resolver settings s = (s, .error why) := by
  unfold populate
  split
  · rename_i sent hsent
    have hok : (sendSettings b resolver (s.fresh b) settings (s.add b)).2 = .ok () := by rw [hsent]
    obtain ⟨held, hheld, hlist⟩ := sendSettings_ok settings (s.add b) hok
    refine .inl ⟨held, hheld, rfl, ?_⟩
    rw [← add_held, ← hlist, hsent]
  · rename_i sent why hsent
    have hframe : sent.list.filter (fun slot => slot.id ≠ s.fresh b) =
        (s.add b).list.filter fun slot => slot.id ≠ s.fresh b := by
      have := sendSettings_frame b resolver (s.fresh b) settings (s.add b)
      rwa [hsent] at this
    have hlist : (sent.remove (s.fresh b)).list = s.list := by
      refine Eq.trans hframe ?_
      rw [Slots.add, List.filter_append, List.filter_eq_self.2]
      · simp
      · simpa using fresh_not_mem b s
    exact .inr ⟨why, by rw [Slots.ext hlist]⟩

theorem populate_taken (htakes : ∀ name value, b.takes name value = true)
    {s : Slots} (h : SentAs resolver (s.fresh b) settings held) :
    (populate b resolver settings s).2 = .ok (s.fresh b) ∧
      (populate b resolver settings s).1.list = s.list ++ [⟨s.fresh b, held, false⟩] := by
  obtain ⟨hok, hlist⟩ := sendSettings_taken htakes (s.add b) h
  rw [add_held] at hlist
  unfold populate
  split
  · rename_i sent hsent
    rw [hsent] at hlist
    exact ⟨rfl, hlist⟩
  · rename_i sent why hsent
    rw [hsent] at hok
    cases hok

theorem addNetwork_cases (b : Behaviour) (c : Config ρ σ) (block : Block ρ σ) (seen : List Scan)
    (s : Slots) :
    (∃ settings held s', c.settings block seen = .ok settings ∧
      SentAs c.resolver (s.fresh b) settings held ∧
      s'.list = s.list ++ [⟨s.fresh b, held, block.wifi.autoconnect⟩] ∧
      addNetwork b c block seen s = (s', .ok (s.fresh b))) ∨
    ∃ why, addNetwork b c block seen s = (s, .error why) := by
  unfold addNetwork
  split
  · exact .inr ⟨_, rfl⟩
  · rename_i settings hsettings
    rcases populate_cases b c.resolver settings s with ⟨held, hsent, hok, hlist⟩ | ⟨why, heq⟩
    · refine .inl ⟨settings, held,
        (populate b c.resolver settings s).1.enable (s.fresh b) block.wifi.autoconnect, hsettings,
        hsent, ?_, ?_⟩
      · rw [Slots.enable, Slots.adjust]
        dsimp only
        rw [hlist, List.map_append]
        congr 1
        · exact (List.map_congr_left fun slot hslot => if_neg (fresh_not_mem b s slot hslot)).trans
            (List.map_id _)
        · simp
      · split
        · rename_i s' why heq
          rw [heq] at hok
          cases hok
        · rename_i s' id heq
          rw [heq] at hok
          rw [heq, Except.ok.inj hok]
    · rw [heq]
      exact .inr ⟨why, rfl⟩

/-! ## What a list may hold -/

def Slots.holds (s : Slots) : List (List (String × Bytes)) := s.list.map Slot.held

theorem holds_adjust (s : Slots) {f : Slot → Slot} (hf : ∀ slot, (f slot).id = slot.id)
    (hheld : ∀ slot, (f slot).held = slot.held) : (s.adjust f hf).holds = s.holds := by
  unfold Slots.holds Slots.adjust
  rw [List.map_map]
  exact List.map_congr_left fun slot _ => hheld slot

theorem holds_enable (s : Slots) (id : ℕ) (on : Bool) : (s.enable id on).holds = s.holds :=
  holds_adjust s _ fun slot => by split <;> rfl

theorem holds_select (s : Slots) (id : ℕ) : (s.select id).holds = s.holds :=
  holds_adjust s _ fun _ => rfl

theorem holds_disableAll (s : Slots) : s.disableAll.holds = s.holds :=
  holds_adjust s _ fun _ => rfl

def Keeps (configs : Set (Config ρ σ)) (s s' : Slots) : Prop :=
  ∀ held ∈ s'.holds, held ∈ s.holds ∨ Given configs held

variable {configs : Set (Config ρ σ)}

theorem keeps_of_eq {s s' : Slots} (h : s'.holds = s.holds) : Keeps configs s s' :=
  fun _ hheld => .inl (h ▸ hheld)

theorem keeps_empty (s : Slots) : Keeps configs s .empty := fun _ h => absurd h List.not_mem_nil

theorem Keeps.trans {s s₁ s₂ : Slots} (h₁ : Keeps configs s s₁) (h₂ : Keeps configs s₁ s₂) :
    Keeps configs s s₂ := fun held hheld => (h₂ held hheld).elim (h₁ held) .inr

theorem keeps_append {s s' : Slots} {slot : Slot} (hlist : s'.list = s.list ++ [slot])
    (h : Given configs slot.held) : Keeps configs s s' := by
  intro held hheld
  rw [Slots.holds, hlist, List.map_append, List.mem_append] at hheld
  rcases hheld with hheld | hheld
  · exact .inl hheld
  · rw [List.mem_singleton.1 hheld]
    exact .inr h

variable {c : Config ρ σ}

theorem keeps_addNetwork (hc : c ∈ configs) {block : Block ρ σ}
    (hblock : block ∈ c.networks) (seen : List Scan) (s : Slots) :
    Keeps configs s (addNetwork b c block seen s).1 := by
  rcases addNetwork_cases b c block seen s with ⟨settings, held, s', hsettings, hsent, hlist, heq⟩ |
    ⟨why, heq⟩
  · rw [heq]
    exact keeps_append hlist ⟨c, hc, settings, _, .network hblock hsettings, hsent⟩
  · rw [heq]
    exact keeps_of_eq rfl

theorem keeps_addNetworks (hc : c ∈ configs) (seen : List Scan) :
    ∀ (blocks : List (Block ρ σ)) (s : Slots), (∀ block ∈ blocks, block ∈ c.networks) →
      Keeps configs s (addNetworks b c seen blocks s).1
  | [], _, _ => keeps_of_eq rfl
  | block :: rest, s, hblocks => by
    obtain ⟨hblock, hrest⟩ := List.forall_mem_cons.1 hblocks
    have hadd := keeps_addNetwork (b := b) hc hblock seen s
    rw [addNetworks]
    split
    · rename_i s' why heq
      rwa [heq] at hadd
    · rename_i s' id heq
      rw [heq] at hadd
      exact hadd.trans (keeps_addNetworks hc seen rest s' hrest)

theorem keeps_configureAlone (hc : c ∈ configs) (refused : String)
    {settings : Supplicant.Adds ρ} (hgives : ∀ given, settings = .ok given → c.Gives given)
    {use : Slots → ℕ → Slots} (huse : ∀ s id, (use s id).holds = s.holds) (s : Slots) :
    Keeps configs s (configureAlone b c.resolver refused settings use).1 := by
  unfold configureAlone
  split
  · exact keeps_empty s
  · rename_i given
    rcases populate_cases b c.resolver given .empty with ⟨held, hsent, hok, hlist⟩ | ⟨why, heq⟩
    · have hgiven : Given configs held := ⟨c, hc, given, _, hgives given rfl, hsent⟩
      have hpopulate := keeps_append (s := .empty) hlist hgiven
      split
      · rename_i s' why heq
        rw [heq] at hok
        cases hok
      · rename_i s' id heq
        rw [heq] at hpopulate
        exact ((keeps_empty s).trans hpopulate).trans (keeps_of_eq (huse s' id))
    · rw [heq]
      exact keeps_empty s

theorem holds_foldl_enable : ∀ (ids : List ℕ) (s : Slots),
    (ids.foldl (fun s id => s.enable id true) s).holds = s.holds
  | [], _ => rfl
  | id :: ids, s => by
    rw [List.foldl_cons, holds_foldl_enable ids, holds_enable]

theorem keeps_setProfiles (hc : c ∈ configs)
    (reach : Except String Unit) (recorded : Bool) (seen : List Scan) (s : Slots) :
    Keeps configs s (setProfiles b c reach recorded seen s).1 := by
  unfold setProfiles
  split
  · exact keeps_of_eq rfl
  · split
    · rename_i eap hdot1x
      exact keeps_configureAlone hc _ (fun _ h => .wired hdot1x h)
        (fun s id => holds_enable s id true) s
    · rename_i label point hdot1x hmesh
      exact keeps_configureAlone hc _ (fun _ h => .mesh hdot1x hmesh h) holds_select s
    · split
      · rename_i s' heq
        unfold enableOnly at heq
        split_ifs at heq
        rw [← Option.some.inj heq]
        exact keeps_of_eq (holds_foldl_enable _ _)
      · by_cases hlifetime : (!b.sets "rand_addr_lifetime") = true
        · rw [if_pos hlifetime]
          exact keeps_empty s
        rw [if_neg hlifetime]
        by_cases hpreassoc : (!b.sets "preassoc_mac_addr") = true
        · rw [if_pos hpreassoc]
          exact keeps_empty s
        · rw [if_neg hpreassoc]
          have hadd := (keeps_empty s).trans
            (keeps_addNetworks (b := b) hc seen c.networks .empty fun _ h => h)
          split
          · rename_i heq
            rwa [heq] at hadd
          · rename_i heq
            rw [heq] at hadd
            by_cases hjoins : c.joins
            · rwa [if_pos hjoins]
            · rw [if_neg hjoins]
              exact hadd.trans (keeps_of_eq (holds_disableAll _))

/-! ## One join -/

/-- A join fails and leaves the list as it was, or it selects the first entry that shows the SSID
its block states, or an entry it has added for its block. -/
theorem connect_cases (b : Behaviour) (c : Config ρ σ) (attempt : Attempt) (wanted : String)
    (s : Slots) :
    (∃ why, connect b c attempt wanted s = (s, .refused why)) ∨
    (∃ block ∈ c.networks, block.id = wanted ∧ ∃ slot ∈ s.list,
      block.wifi.ssid = some (ssidOf slot.held) ∧
      connect b c attempt wanted s = join c attempt wanted slot.id s) ∨
    ∃ block ∈ c.networks, block.id = wanted ∧ ∃ settings held s',
      c.settings block attempt.seen = .ok settings ∧
      SentAs c.resolver (s.fresh b) settings held ∧
      s'.list = s.list ++ [⟨s.fresh b, held, block.wifi.autoconnect⟩] ∧
      connect b c attempt wanted s = join c attempt wanted (s.fresh b) s' := by
  unfold connect
  split
  · exact .inl ⟨_, rfl⟩
  split
  · exact .inl ⟨_, rfl⟩
  rename_i block hfind
  have hblock := List.mem_of_find?_eq_some hfind
  have hid : block.id = wanted := by simpa using List.find?_some hfind
  split
  · exact .inl ⟨_, rfl⟩
  split
  · rename_i slot hslot
    obtain ⟨ssid, hssid, hfound⟩ := Option.bind_eq_some_iff.1 hslot
    have hshows : ssidOf slot.held = ssid := by simpa using List.find?_some hfound
    exact .inr (.inl ⟨block, hblock, hid, slot, List.mem_of_find?_eq_some hfound,
      hssid.trans (by rw [hshows]), rfl⟩)
  · rcases addNetwork_cases b c block attempt.seen s with
      ⟨settings, held, s', hsettings, hsent, hlist, heq⟩ | ⟨why, heq⟩
    · rw [heq]
      exact .inr (.inr ⟨block, hblock, hid, settings, held, s', hsettings, hsent, hlist, rfl⟩)
    · rw [heq]
      exact .inl ⟨_, rfl⟩

theorem select_enabled {s : Slots} {slot : Slot} (hslot : slot ∈ s.list) :
    { slot with enabled := true } ∈ (s.select slot.id).list ∧
      ∀ other ∈ (s.select slot.id).list, other.enabled = true ↔
        other = { slot with enabled := true } := by
  refine ⟨List.mem_map.2 ⟨slot, hslot, by simp⟩, fun other hother => ?_⟩
  obtain ⟨before, hbefore, rfl⟩ := List.mem_map.1 hother
  constructor
  · intro henabled
    have hid : before.id = slot.id := by simpa using henabled
    rw [List.inj_on_of_nodup_map s.nodup hbefore hslot hid]
    simp
  · intro h
    rw [h]

theorem keeps_connect (hc : c ∈ configs) (attempt : Attempt) (wanted : String) (s : Slots) :
    Keeps configs s (connect b c attempt wanted s).1 := by
  rcases connect_cases b c attempt wanted s with ⟨why, heq⟩ | ⟨block, -, -, slot, -, -, heq⟩ |
    ⟨block, hblock, -, settings, held, s', hsettings, hsent, hlist, heq⟩
  · rw [heq]
    exact keeps_of_eq rfl
  · rw [heq]
    exact keeps_of_eq (holds_select s slot.id)
  · rw [heq]
    exact (keeps_append hlist ⟨c, hc, settings, _, .network hblock hsettings, hsent⟩).trans
      (keeps_of_eq (holds_select s' _))

theorem right_connect (hc : c ∈ configs) (hapart : Apart configs)
    (attempt : Attempt) (wanted : String) {s : Slots} (hs : ∀ held ∈ s.holds, Given configs held) :
    Right b s (.connect c attempt wanted) := by
  unfold Right
  dsimp only
  rcases connect_cases b c attempt wanted s with ⟨why, heq⟩ |
    ⟨block, hblock, hid, slot, hslot, hssid, heq⟩ |
    ⟨block, hblock, hid, settings, held, s', hsettings, hsent, hlist, heq⟩
  · rw [heq]
  · obtain ⟨hmem, henabled⟩ := select_enabled hslot
    rw [heq]
    exact fun _ => ⟨block, hblock, hid, _, hmem, rfl, hapart slot.held
      (hs _ (List.mem_map_of_mem hslot)) c hc block hblock hssid attempt.seen, henabled⟩
  · have hslot : ⟨s.fresh b, held, block.wifi.autoconnect⟩ ∈ s'.list := by simp [hlist]
    obtain ⟨hmem, henabled⟩ := select_enabled hslot
    rw [heq]
    exact fun _ => ⟨block, hblock, hid, _, hmem, rfl, ⟨settings, hsettings, hsent.heldAs⟩,
      henabled⟩

/-! ## Every run -/

/-- The run lemma : where entries are apart, every join is right. -/
theorem allRight_of_apart (hapart : Apart configs) :
    ∀ {calls : List (Call ρ σ)} {s : Slots}, (∀ held ∈ s.holds, Given configs held) →
      (∀ call ∈ calls, call.config ∈ configs) → AllRight b s calls
  | [], _, _, _ => trivial
  | call :: calls, s, hs, hcalls => by
    obtain ⟨hcall, hcalls⟩ := List.forall_mem_cons.1 hcalls
    have hkeeps : Keeps configs s (call.run b s) := by
      cases call with
      | setProfiles c reach recorded seen => exact keeps_setProfiles hcall reach recorded seen s
      | connect c attempt wanted => exact keeps_connect hcall attempt wanted s
    have hright : Right b s call := by
      cases call with
      | setProfiles => trivial
      | connect c attempt wanted => exact right_connect hcall hapart attempt wanted hs
    refine ⟨hright, allRight_of_apart hapart (fun held hheld => ?_) hcalls⟩
    exact (hkeeps held hheld).elim (hs held) id

/-- A supplicant that takes whatever it is sent, and gives this number first. -/
def agreeable (id : ℕ) : Behaviour where
  fresh ids := if id ∈ ids then ids.foldr max 0 + 1 else id
  fresh_not_mem ids := by
    split_ifs with h
    · intro hmem
      have := List.le_max_of_le' 0 hmem le_rfl
      omega
    · exact h
  takes _ _ := true
  sets _ := true

theorem fresh_empty (id : ℕ) : Slots.empty.fresh (agreeable id) = id := rfl

def unhindered (seen : List Scan) : Attempt := ⟨.ok (), .ok (), seen, true, .ok ()⟩

theorem find?_id {blocks : List (Block ρ σ)} (h : (blocks.map Block.id).Nodup) {block : Block ρ σ}
    (hblock : block ∈ blocks) : blocks.find? (fun other => other.id = block.id) = some block := by
  have hsome : (blocks.find? fun other => other.id = block.id).isSome := by
    rw [List.find?_isSome]
    exact ⟨block, hblock, by simp⟩
  obtain ⟨other, hother⟩ := Option.isSome_iff_exists.1 hsome
  have hid : other.id = block.id := by simpa using List.find?_some hother
  rw [hother, List.inj_on_of_nodup_map h (List.mem_of_find?_eq_some hother) hblock hid]

theorem configureAlone_taken {id : ℕ} (refused : String)
    (hsent : SentAs c.resolver id settings held)
    {use : Slots → ℕ → Slots} (huse : ∀ s id, (use s id).holds = s.holds) :
    (configureAlone (agreeable id) c.resolver refused (.ok settings) use).1.holds = [held] := by
  rw [← fresh_empty id] at hsent
  obtain ⟨hok, hlist⟩ := populate_taken (b := agreeable id) (fun _ _ => rfl) hsent
  unfold configureAlone
  dsimp only
  split
  · rename_i heq
    rw [heq] at hok
    cases hok
  · rename_i s id' heq
    rw [heq] at hlist
    dsimp only at hlist ⊢
    rw [huse, Slots.holds, hlist]
    rfl

theorem exists_only {id : ℕ} (hgives : c.Gives settings)
    (hsent : SentAs c.resolver id settings held) :
    ∃ call : Call ρ σ, call.config = c ∧ (call.run (agreeable id) .empty).holds = [held] := by
  cases hgives with
  | @network block seen _ hblock hsettings =>
    refine ⟨.connect c (unhindered seen) block.id, rfl, ?_⟩
    rw [← fresh_empty id] at hsent
    obtain ⟨hok, hlist⟩ := populate_taken (b := agreeable id) (fun _ _ => rfl) hsent
    have hnone : (block.wifi.ssid.bind fun ssid =>
        Slots.empty.list.find? fun slot => ssidOf slot.held = ssid) = none := by
      cases block.wifi.ssid <;> rfl
    unfold Call.run connect unhindered
    dsimp only
    rw [find?_id c.ids hblock]
    dsimp only
    rw [hnone]
    dsimp only
    rw [addNetwork, hsettings]
    dsimp only
    generalize populate (agreeable id) c.resolver settings .empty = populated at hok hlist
    obtain ⟨s, result⟩ := populated
    dsimp only at hok hlist
    subst hok
    dsimp only
    rw [join, holds_select, holds_enable, Slots.holds, hlist]
    rfl
  | wired hdot1x hsettings =>
    refine ⟨.setProfiles c (.ok ()) false [], rfl, ?_⟩
    unfold Call.run setProfiles
    dsimp only
    rw [hdot1x]
    dsimp only
    rw [hsettings]
    exact configureAlone_taken _ hsent fun s id => holds_enable s id true
  | mesh hdot1x hmesh hsettings =>
    refine ⟨.setProfiles c (.ok ()) false [], rfl, ?_⟩
    unfold Call.run setProfiles
    dsimp only
    rw [hdot1x, hmesh]
    dsimp only
    rw [hsettings]
    exact configureAlone_taken _ hsent holds_select

/-- Where every join is right, entries are apart. -/
theorem apart_of_allRight (h : ∀ (b : Behaviour) (calls : List (Call ρ σ)),
    (∀ call ∈ calls, call.config ∈ configs) → AllRight b .empty calls) : Apart configs := by
  rintro held ⟨c, hc, settings, id, hgives, hsent⟩ c' hc' block hblock hssid seen
  obtain ⟨first, hfirst, honly⟩ := exists_only hgives hsent
  have hconfigs : ∀ call ∈ [first, .connect c' (unhindered seen) block.id],
      call.config ∈ configs := by
    intro call hcall
    rcases List.mem_pair.1 hcall with rfl | rfl
    · rwa [hfirst]
    · exact hc'
  obtain ⟨-, hright, -⟩ := h (agreeable id) _ hconfigs
  generalize first.run (agreeable id) .empty = s at honly hright
  obtain ⟨slot, hlist, hheld⟩ := List.map_eq_singleton_iff.1 honly
  have hfound : (block.wifi.ssid.bind fun ssid =>
      s.list.find? fun slot => ssidOf slot.held = ssid) = some slot := by
    rw [hssid, hlist]
    simp [hheld]
  unfold Right connect unhindered at hright
  dsimp only at hright
  rw [find?_id c'.ids hblock] at hright
  dsimp only at hright
  rw [hfound] at hright
  obtain ⟨other, hother, hid, slot', hslot', -, hrenders, -⟩ := hright rfl
  obtain ⟨before, hbefore, rfl⟩ := List.mem_map.1 hslot'
  rw [hlist, List.mem_singleton] at hbefore
  rw [List.inj_on_of_nodup_map c'.ids hother hblock hid, hbefore, hheld] at hrenders
  exact hrenders

/-- Every join of every run selects the settings of its block, and leaves nothing when it fails,
exactly where no entry shows the SSID of a block it does not hold the settings of. -/
theorem selects_iff (configs : Set (Config ρ σ)) :
    (∀ (b : Behaviour) (calls : List (Call ρ σ)), (∀ call ∈ calls, call.config ∈ configs) →
      AllRight b .empty calls) ↔ Apart configs :=
  ⟨apart_of_allRight, fun hapart _ _ hcalls =>
    allRight_of_apart hapart (fun _ h => absurd h List.not_mem_nil) hcalls⟩

/-! ### An open network beside a protected one -/

def openCafe : Block Bytes Str :=
  ⟨"cafe", ⟨some (asciis "cafe"), false, [], none, none, .unsecured, true⟩⟩

def lockedCafe : Block Bytes Str :=
  ⟨"cafe-home", ⟨some (asciis "cafe"), false, [], none, none,
    .psk ⟨.wpa2, asciis "opensesame"⟩, true⟩⟩

def twins : Config Bytes Str where
  interface := "wlan0"
  networks := [openCafe, lockedCafe]
  ids := by decide
  dot1x := none
  mesh := none
  macPolicy := .permanent
  randomise := false
  joins := true
  resolver := Supplicant.literal

def openHeld : List (String × Bytes) :=
  [("ssid", asciis "63616665"), ("mac_addr", asciis "0"), ("key_mgmt", asciis "NONE")]

theorem openCafe_given : Given {twins} openHeld := by
  have hgives : twins.Gives _ :=
    @Config.Gives.network _ _ twins openCafe [] _ (by simp [twins]) rfl
  refine ⟨twins, rfl, _, 0, hgives, ?_⟩
  exact .cons ⟨rfl, rfl⟩ (.cons ⟨rfl, rfl⟩ (.cons ⟨rfl, rfl⟩ .nil))

/-- Once the open network has been joined, so is it when the protected one is asked for. -/
theorem open_twin_selected :
    ¬∀ (configs : Set (Config Bytes Str)) (b : Behaviour) (calls : List (Call Bytes Str)),
      (∀ call ∈ calls, call.config ∈ configs) → AllRight b .empty calls := by
  intro h
  have hapart : Apart {twins} := apart_of_allRight (h {twins})
  obtain ⟨settings, hsettings, hheld⟩ := hapart openHeld openCafe_given twins rfl lockedCafe
    (by simp [twins]) rfl []
  have hlocked : (twins.settings lockedCafe []).map List.length = .ok 6 := rfl
  rw [hsettings] at hlocked
  have hsix : settings.length = 6 := Except.ok.inj hlocked
  exact absurd (hsix.symm.trans hheld.length_eq) (by decide)

end Netcfgd.WifiJoin
