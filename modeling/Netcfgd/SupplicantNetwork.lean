import Netcfgd.SupplicantRows

/-!
# A network as commands of the supplicant

`src/backend/supplicant/network.c` : what a network, a wired port and a mesh are rendered to, a list
of settings, and the `SET_NETWORK` command of each. `src/backend/supplicant/session.c` : the network
is added, each setting sent, and the network removed again when one is refused.
`ncfg_supplicant_request_labelled` of `client.c` is what every command goes through.

Credentials and paths are what the resolver gives, and the supplicant is what it answers to the
commands it was sent.
-/

namespace Netcfgd.Supplicant

open Json (ascii asciis decimal hexDigit)
open CNumber (isDigit)

/-! ## The document and the resolver -/

structure Str where
  bytes : Bytes
  noNul : 0 ∉ bytes

instance : Inhabited Str := ⟨⟨[], List.not_mem_nil⟩⟩

/-- `ncfg_secret_resolver_t` : what a reference stands for, and the path of a certificate. -/
structure Resolver (ρ σ : Type) where
  resolve : ρ → Except String Bytes
  pathFor : σ → String → Except String Str

/-- `ncfg_psk_config_t`, its `proto`. -/
inductive PskProto
  | wpa2
  | wpa3
  | wpa2Wpa3
  deriving DecidableEq

/-- `ncfg_psk_config_t`. -/
structure PskConfig (ρ : Type) where
  proto : PskProto
  passphrase : ρ

/-- `ncfg_eap_config_t`, its `method`. -/
inductive EapMethod
  | peap
  | ttls
  | tls
  | pwd
  deriving DecidableEq

/-- `ncfg_eap_config_t`. -/
structure EapConfig (ρ σ : Type) where
  method : EapMethod
  identity : Option Str
  anonymousIdentity : Option Str
  caCert : Option σ
  domainSuffixMatch : Option Str
  clientCert : Option σ
  phase2 : Option Str
  privateKey : Option σ
  password : Option ρ

/-- `ncfg_wifi_security_t`. -/
inductive Security (ρ σ : Type)
  | unsecured
  | psk (psk : PskConfig ρ)
  | eap (eap : EapConfig ρ σ)
  | owe

structure Roam where
  interval : ℤ
  signal : ℤ
  slowInterval : ℤ

/-- `ncfg_wifi_network_t`, for what is rendered of it. -/
structure WifiNetwork (ρ σ : Type) where
  ssid : Option Bytes
  hidden : Bool
  bssid : List Str
  roam : Option Roam
  metric : Option ℤ
  security : Security ρ σ
  autoconnect : Bool

/-- `ncfg_mesh_t`. Any security but none is a passphrase. -/
structure Mesh (ρ : Type) where
  meshId : Option Bytes
  channel : Option ℤ
  passphrase : Option ρ

/-- `NCFG_MAC_POLICY_*`. -/
inductive MacPolicy
  | permanent
  | perNetwork
  | perConnection
  deriving DecidableEq

/-! ## Values -/

/-- The byte with a backslash before it, when it is a quote or a backslash. -/
def quoteByte (c : UInt8) : Bytes :=
  if c = ascii '"' ∨ c = ascii '\\' then [ascii '\\', c] else [c]

/-- `ncfg_supplicant_quote`. -/
def quote (value : Bytes) : Bytes :=
  ascii '"' :: ((cString value).flatMap quoteByte ++ [ascii '"'])

/-- `ncfg_supplicant_ssid_argument`. -/
def ssidArgument (ssid : Bytes) : Option Bytes :=
  if ssidMaxLen < ssid.length then none
  else some (ssid.flatMap fun c => [hexDigit (c.toNat / 16), hexDigit (c.toNat % 16)])

/-- `ncfg_supplicant_passphrase_is_sendable`. -/
def passphraseIsSendable (passphrase : Bytes) : Bool :=
  passphrase.all fun c => c ≠ 10 && c ≠ 13

/-- `ncfg_supplicant_mac_addr_value`. -/
def macAddrValue : MacPolicy → String
  | .permanent => "0"
  | .perNetwork => "1"
  | .perConnection => "1"

def isHexDigit (c : UInt8) : Bool := (hexValue c).isSome

/-- `is_bssid`. -/
def isBssid (text : Bytes) : Bool :=
  text.length = 17 &&
    text.zipIdx.all fun (c, index) => if index % 3 = 2 then c = ascii ':' else isHexDigit c

/-- `RANK_CEILING`. -/
def rankCeiling : ℤ := 4096

/-- `join_rank`. -/
def joinRank (metric : ℤ) : ℤ :=
  if metric ≤ 0 then rankCeiling else if rankCeiling ≤ metric then 0 else rankCeiling - metric

/-- `frequency_of`. -/
def frequencyOf (channel : ℤ) : ℤ :=
  if channel = 14 then 2484
  else if 1 ≤ channel ∧ channel ≤ 13 then 2407 + 5 * channel
  else if 36 ≤ channel ∧ channel ≤ 177 then 5000 + 5 * channel
  else 0

/-- `eap_name`. -/
def eapName : EapMethod → String
  | .peap => "PEAP"
  | .ttls => "TTLS"
  | .tls => "TLS"
  | .pwd => "PWD"

/-! ## Settings -/

/-- `DEFAULT_LIMIT` of a buffer. -/
def bufLimit : ℕ := 16 * 1024 * 1024

/-- `ncfg_supplicant_setting_t` : its value, or the reference of a credential. -/
structure Setting (ρ : Type) where
  name : String
  value : Option Bytes
  secret : Option ρ
  sensitive : Bool

section Settings

variable {ρ σ : Type}

abbrev Adds (ρ : Type) := Except String (List (Setting ρ))

def adds : List (Adds ρ) → Adds ρ
  | [] => .ok []
  | one :: more => one.bind fun first => (adds more).bind fun rest => .ok (first ++ rest)

/-- `add_plain`. -/
def addPlain (name : String) (value : Bytes) : Adds ρ := .ok [⟨name, some value, none, false⟩]

/-- `add_quoted`. -/
def addQuoted (name : String) (value : Str) (sensitive : Bool) : Adds ρ :=
  if bufLimit < (quote value.bytes).length then
    .error ("the \x60" ++ name ++ "\x60 value is longer than one command may be")
  else .ok [⟨name, some (quote value.bytes), none, sensitive⟩]

/-- `add_secret`. -/
def addSecret (name : String) (secret : ρ) : Adds ρ := .ok [⟨name, none, some secret, true⟩]

/-- `PASSPHRASE_MIN`. -/
def passphraseMin : ℕ := 8

/-- `PASSPHRASE_MAX`. -/
def passphraseMax : ℕ := 63

/-- `credential_is_usable`. It adds nothing. -/
def credentialIsUsable (resolver : Resolver ρ σ) (reference : ρ) (checkLength : Bool) : Adds ρ :=
  (resolver.resolve reference).bind fun secret =>
    let text := cString secret
    if secret.length ≠ text.length ∨ ¬ passphraseIsSendable text then
      .error "the passphrase contains a newline or NUL, which the control protocol cannot carry"
    else if checkLength ∧ (secret.length < passphraseMin ∨ passphraseMax < secret.length) then
      .error ("a WPA2 passphrase is 8 to 63 octets and this one is " ++ toString secret.length ++
        " -- a character outside ASCII counts as more than one, which is how the supplicant " ++
        "counts it. That is what the \x60psk\x60 field accepts; WPA3 on its own has no such " ++
        "limit, so \x60proto = \"wpa3\"\x60 would take it")
    else .ok []

/-- `psk_settings`. -/
def pskSettings (resolver : Resolver ρ σ) (psk : PskConfig ρ) : Adds ρ :=
  adds
    [credentialIsUsable resolver psk.passphrase (psk.proto ≠ .wpa3),
      addSecret (if psk.proto = .wpa3 then "sae_password" else "psk") psk.passphrase,
      addPlain "key_mgmt" (match psk.proto with
        | .wpa2 => asciis "WPA-PSK FT-PSK"
        | .wpa3 => asciis "SAE FT-SAE"
        | .wpa2Wpa3 => asciis "WPA-PSK SAE FT-PSK FT-SAE"),
      addPlain "proto" (asciis "RSN"),
      addPlain "ieee80211w" (asciis (if psk.proto = .wpa3 then "2" else "1"))]

/-- `add_certificate`. -/
def addCertificate (resolver : Resolver ρ σ) (name : String) (source : σ) (role : String) :
    Adds ρ :=
  (resolver.pathFor source role).bind fun path => addQuoted name path false

def whenSome {α : Type} (value : Option α) (add : α → Adds ρ) : Adds ρ := value.elim (.ok []) add

/-- `eap_settings`. -/
def eapSettings (resolver : Resolver ρ σ) (eap : EapConfig ρ σ) : Adds ρ :=
  adds
    [addPlain "key_mgmt" (asciis "WPA-EAP FT-EAP"),
      addPlain "eap" (asciis (eapName eap.method)),
      addQuoted "identity" (eap.identity.getD default) true,
      whenSome eap.anonymousIdentity fun name => addQuoted "anonymous_identity" name false,
      whenSome eap.caCert fun source => addCertificate resolver "ca_cert" source "ca.pem",
      whenSome eap.domainSuffixMatch fun name => addQuoted "domain_suffix_match" name false,
      whenSome eap.clientCert fun source =>
        addCertificate resolver "client_cert" source "client.pem",
      whenSome eap.phase2 fun phase => addQuoted "phase2" phase false,
      if eap.method = .tls then
        match eap.privateKey with
        | none => .error "this EAP method needs \x60private_key\x60"
        | some source => addCertificate resolver "private_key" source "client.key"
      else
        match eap.password with
        | none => .error "this EAP method needs \x60password\x60"
        | some password =>
          adds [credentialIsUsable resolver password false, addSecret "password" password]]

/-- `ncfg_supplicant_wired_settings`. -/
def wiredSettings (resolver : Resolver ρ σ) (eap : EapConfig ρ σ) : Adds ρ :=
  (eapSettings resolver eap).bind fun settings =>
    .ok (settings.map (fun s => if s.name = "key_mgmt" then
        { s with value := some (asciis "IEEE8021X") } else s) ++
      [⟨"eapol_flags", some (asciis "0"), none, false⟩])

/-- `ncfg_supplicant_mesh_settings`. -/
def meshSettings (resolver : Resolver ρ σ) (mesh : Mesh ρ) : Adds ρ :=
  match mesh.channel with
  | none => .error "a mesh needs a channel to be joined on"
  | some channel =>
    if frequencyOf channel = 0 then
      .error ("channel " ++ toString channel ++ " names no frequency a mesh can use")
    else
      match mesh.meshId.bind ssidArgument with
      | none => .error ("a mesh ID of " ++ toString (mesh.meshId.getD []).length ++
          " octets cannot be sent")
      | some hex =>
        adds
          [addPlain "ssid" hex, addPlain "mode" (asciis "5"),
            addPlain "frequency" (decimal (frequencyOf channel)),
            addPlain "beacon_int" (asciis "100"),
            match mesh.passphrase with
            | none => addPlain "key_mgmt" (asciis "NONE")
            | some passphrase =>
              adds [credentialIsUsable resolver passphrase false,
                addSecret "sae_password" passphrase, addPlain "key_mgmt" (asciis "SAE"),
                addPlain "ieee80211w" (asciis "2")]]

/-- What `bssid` and `bssid_accept` are given. -/
def bssidSettings (bssid : List Str) : Adds ρ :=
  match bssid.find? fun text => !isBssid text.bytes with
  | some text => .error ("\x60" ++ String.ofList (text.bytes.map fun c => Char.ofNat c.toNat) ++
      "\x60 is not a MAC address")
  | none =>
    match bssid with
    | [] => .ok []
    | [one] => addPlain "bssid" one.bytes
    | _ =>
      let list := [ascii ' '].intercalate
        (bssid.map fun text => text.bytes ++ asciis "/ff:ff:ff:ff:ff:ff")
      if bufLimit < list.length then
        .error ("no memory for " ++ toString bssid.length ++ " access points")
      else addPlain "bssid_accept" list

/-- What `bgscan` is given, between its quotes. -/
def roamModule (roam : Roam) : Bytes :=
  asciis "simple:" ++ decimal roam.interval ++ ascii ':' :: (decimal roam.signal ++
    ascii ':' :: decimal roam.slowInterval)

/-- `ncfg_supplicant_settings`. `resolvedSsid` is the name read off a scan. -/
def networkSettings (resolver : Resolver ρ σ) (network : WifiNetwork ρ σ)
    (resolvedSsid : Option Bytes) (macPolicy : MacPolicy) : Adds ρ :=
  match network.ssid.or resolvedSsid with
  | none => .error ("this network names access points instead of an SSID, and the name was " ++
      "never read off a scan")
  | some ssid =>
    match ssidArgument ssid with
    | none => .error ("an SSID is 0 to 32 octets and this one is " ++ toString ssid.length)
    | some hex =>
      adds
        [addPlain "ssid" hex,
          addPlain "mac_addr" (asciis (macAddrValue macPolicy)),
          if network.hidden then addPlain "scan_ssid" (asciis "1") else .ok [],
          bssidSettings network.bssid,
          whenSome network.roam fun roam =>
            addPlain "bgscan" (ascii '"' :: (roamModule roam ++ [ascii '"'])),
          whenSome network.metric fun metric => addPlain "priority" (decimal (joinRank metric)),
          match network.security with
          | .unsecured => addPlain "key_mgmt" (asciis "NONE")
          | .psk psk => pskSettings resolver psk
          | .eap eap => eapSettings resolver eap
          | .owe => adds [addPlain "key_mgmt" (asciis "OWE"), addPlain "ieee80211w" (asciis "2")]]

/-! ## Commands -/

/-- `append_value`. -/
def settingValue (resolver : Resolver ρ σ) (setting : Setting ρ) : Except String Bytes :=
  match setting.secret with
  | none => .ok (setting.value.getD [])
  | some secret => (resolver.resolve secret).map quote

def commandStart (id : ℕ) (name : String) : Bytes :=
  asciis "SET_NETWORK " ++ decimal id ++ ascii ' ' :: (asciis name ++ [ascii ' '])

/-- `ncfg_supplicant_setting_command`. -/
def settingCommand (resolver : Resolver ρ σ) (id : ℕ) (setting : Setting ρ) :
    Except String Bytes :=
  (settingValue resolver setting).bind fun value =>
    if bufLimit < (commandStart id setting.name ++ value).length then
      .error ("the \x60" ++ setting.name ++ "\x60 command is longer than one may be")
    else .ok (commandStart id setting.name ++ value)

/-- `ncfg_supplicant_setting_redacted`, into the buffer of `send_setting`. -/
def settingRedacted (id : ℕ) (setting : Setting ρ) : Except String Bytes :=
  let shown := commandStart id setting.name ++
    if setting.sensitive then asciis "<redacted>" else setting.value.getD []
  if bufLimit < shown.length then
    .error ("the \x60" ++ setting.name ++ "\x60 setting is longer than one command may be")
  else .ok shown

/-! ## The session -/

/-- What comes of a command : nothing that can be read, or an answer. -/
inductive Reply
  | lost (why : String)
  | ok
  | fail
  | data (body : Bytes)

/-- The supplicant, and the socket to it : what comes of the last of the commands sent. -/
abbrev World := List Bytes → Reply

/-- Why a network was not taken : it could not be sent, or what it was answered. -/
inductive Refusal
  | unsendable (why : String)
  | answered (why : String)

abbrev Session (α : Type) := Except Refusal α × List Bytes

/-- `ncfg_supplicant_request_labelled`. A command is a string. -/
def request (world : World) (sent : List Bytes) (command : Bytes) : Session Reply :=
  let command := cString command
  if command.any fun c => c = 10 || c = 13 then
    (.error (.unsendable "a control command cannot contain a newline"), sent)
  else if command = [] then (.error (.unsendable "a control command cannot be empty"), sent)
  else
    match world (sent ++ [command]) with
    | .lost why => (.error (.answered why), sent ++ [command])
    | reply => (.ok reply, sent ++ [command])

/-- `ncfg_supplicant_command`. -/
def command (world : World) (sent : List Bytes) (text : Bytes) : Session Unit :=
  match request world sent text with
  | (.error why, sent) => (.error why, sent)
  | (.ok .ok, sent) => (.ok (), sent)
  | (.ok _, sent) => (.error (.answered "it did not answer OK"), sent)

def isBlank (c : UInt8) : Bool := c = ascii ' ' || c = 9

/-- The number `ADD_NETWORK` answers with. -/
def networkId (body : Bytes) : Option ℕ :=
  let rest := body.dropWhile isBlank
  let digits := rest.takeWhile isDigit
  let value := digits.foldl (fun value c => value * 10 + (c.toNat - 48)) 0
  if digits = [] ∨ 2 ^ 32 ≤ value ∨ (rest.dropWhile isDigit).dropWhile isBlank ≠ [] then none
  else some value

/-- `new_network_id`. -/
def newNetworkId (world : World) (sent : List Bytes) : Session ℕ :=
  match request world sent (asciis "ADD_NETWORK") with
  | (.error why, sent) => (.error why, sent)
  | (.ok (.data body), sent) =>
    match networkId body with
    | none => (.error (.answered "ADD_NETWORK did not answer with a network id"), sent)
    | some id => (.ok id, sent)
  | (.ok _, sent) => (.error (.answered "ADD_NETWORK did not answer with a network id"), sent)

/-- `send_setting`. -/
def sendSetting (world : World) (resolver : Resolver ρ σ) (id : ℕ) (sent : List Bytes)
    (setting : Setting ρ) : Session Unit :=
  match settingRedacted id setting, settingCommand resolver id setting with
  | .error why, _ => (.error (.unsendable why), sent)
  | .ok _, .error why => (.error (.unsendable why), sent)
  | .ok _, .ok line =>
    match request world sent line with
    | (.error why, sent) => (.error why, sent)
    | (.ok .ok, sent) => (.ok (), sent)
    | (.ok _, sent) => (.error (.answered "the supplicant did not answer OK"), sent)

def sendSettings (world : World) (resolver : Resolver ρ σ) (id : ℕ) :
    List Bytes → List (Setting ρ) → Session Unit
  | sent, [] => (.ok (), sent)
  | sent, setting :: settings =>
    match sendSetting world resolver id sent setting with
    | (.error why, sent) => (.error why, sent)
    | (.ok (), sent) => sendSettings world resolver id sent settings

/-- `populate`. What is half there is removed again, whatever comes of that. -/
def populate (world : World) (resolver : Resolver ρ σ) (sent : List Bytes)
    (settings : List (Setting ρ)) : Session ℕ :=
  match newNetworkId world sent with
  | (.error why, sent) => (.error why, sent)
  | (.ok id, sent) =>
    match sendSettings world resolver id sent settings with
    | (.ok (), sent) => (.ok id, sent)
    | (.error why, sent) =>
      (.error why, (command world sent (asciis "REMOVE_NETWORK " ++ decimal id)).2)

/-- What is handed over : a network, with the name read off a scan when its own is not given, a
wired port, or a mesh. -/
inductive Joining (ρ σ : Type)
  | network (wifi : WifiNetwork ρ σ) (resolvedSsid : Option Bytes) (macPolicy : MacPolicy)
  | wired (eap : EapConfig ρ σ)
  | mesh (point : Mesh ρ)

/-- The settings of a joining. -/
def Joining.settings (resolver : Resolver ρ σ) : Joining ρ σ → Adds ρ
  | .network wifi resolvedSsid macPolicy => networkSettings resolver wifi resolvedSsid macPolicy
  | .wired eap => wiredSettings resolver eap
  | .mesh point => meshSettings resolver point

/-- Whether other networks are taken away first (`ncfg_supplicant_clear_networks`). -/
def Joining.clears : Joining ρ σ → Bool
  | .network _ _ _ => false
  | _ => true

def Joining.lastCommand : Joining ρ σ → String
  | .network wifi _ _ => if wifi.autoconnect then "ENABLE_NETWORK " else "DISABLE_NETWORK "
  | .wired _ => "ENABLE_NETWORK "
  | .mesh _ => "SELECT_NETWORK "

def Joining.handOver (world : World) (resolver : Resolver ρ σ) (joining : Joining ρ σ)
    (sent : List Bytes) : Session ℕ :=
  match joining.settings resolver with
  | .error why => (.error (.unsendable why), sent)
  | .ok settings =>
    match populate world resolver sent settings with
    | (.error why, sent) => (.error why, sent)
    | (.ok id, sent) =>
      match command world sent (asciis joining.lastCommand ++ decimal id) with
      | (.error why, sent) => (.error why, sent)
      | (.ok (), sent) => (.ok id, sent)

/-- `ncfg_supplicant_add_network`, after its scan, `ncfg_supplicant_configure_wired` and
`ncfg_supplicant_configure_mesh`. -/
def Joining.configure (world : World) (resolver : Resolver ρ σ) (joining : Joining ρ σ) :
    Session ℕ :=
  if joining.clears then
    match command world [] (asciis "REMOVE_NETWORK all") with
    | (.error why, sent) => (.error why, sent)
    | (.ok (), sent) => joining.handOver world resolver sent
  else joining.handOver world resolver []

end Settings

end Netcfgd.Supplicant
