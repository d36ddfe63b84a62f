import Netcfgd.Members

/-!
# Requests and events

`src/proto/request.c` and the events of `src/proto/response.c` : what a request and an event hold,
what is written of them, and what a line is read as. A request is a kind and what the kind's arm
of the union holds; the encoder names a required member it does not have, and the decoder refuses
every member the kind does not define. An event is written whatever it holds and read with the
members it does not know passed over.
-/

namespace Netcfgd.Proto

open Netcfgd.Json

/-! ## Kinds -/

/-- `ncfg_proto_request_kind_t`. -/
inductive RequestKind
  | hello | status | plan | apply | confirm | revert | reload | «show» | explain | configList
  | monitor | wifiScan | wifiStatus | wifiAdd | wifiConnect | wifiDisconnect | wifiForget
  | configPut | probeList | hookList | profileList | modemList | profileSave | secretList
  | profileSet | probePut | secretPut | configDelete | secretDelete | apStations | radios
  | radioSet
  deriving DecidableEq, Repr

inductive Arm
  | bare | apply | explain | interface | wifiAdd | wifiConnect | id | put | secretPut
  | profileSet | delete | profileSave | radioSet
  deriving DecidableEq, Repr

namespace RequestKind

/-- `request_names`. -/
def name : RequestKind → String
  | hello => "hello"
  | status => "status"
  | plan => "plan"
  | apply => "apply"
  | confirm => "confirm"
  | revert => "revert"
  | reload => "reload"
  | «show» => "show"
  | explain => "explain"
  | configList => "config_list"
  | monitor => "monitor"
  | wifiScan => "wifi_scan"
  | wifiStatus => "wifi_status"
  | wifiAdd => "wifi_add"
  | wifiConnect => "wifi_connect"
  | wifiDisconnect => "wifi_disconnect"
  | wifiForget => "wifi_forget"
  | configPut => "config_put"
  | probeList => "probe_list"
  | hookList => "hook_list"
  | profileList => "profile_list"
  | modemList => "modem_list"
  | profileSave => "profile_save"
  | secretList => "secret_list"
  | profileSet => "profile_set"
  | probePut => "probe_put"
  | secretPut => "secret_put"
  | configDelete => "config_delete"
  | secretDelete => "secret_delete"
  | apStations => "ap_stations"
  | radios => "radios"
  | radioSet => "radio_set"

def all : List RequestKind :=
  [hello, status, plan, apply, confirm, revert, reload, «show», explain, configList, monitor,
    wifiScan, wifiStatus, wifiAdd, wifiConnect, wifiDisconnect, wifiForget, configPut, probeList,
    hookList, profileList, modemList, profileSave, secretList, profileSet, probePut, secretPut,
    configDelete, secretDelete, apStations, radios, radioSet]

/-- `request_members`. -/
def members : RequestKind → List String
  | apply =>
    ["confirm", "allow_disruption", "strand_credentials", "restart_wedged", "no_rollback"]
  | explain => ["subject"]
  | wifiScan | wifiStatus | wifiDisconnect | apStations => ["interface"]
  | wifiAdd => ["ssid", "id", "passphrase", "proto", "hidden", "metric", "eap", "owe"]
  | wifiConnect => ["interface", "network"]
  | wifiForget => ["id"]
  | configPut | probePut => ["name", "text", "replace"]
  | profileSave => ["name", "replace"]
  | profileSet | configDelete | secretDelete => ["name"]
  | secretPut => ["name", "value", "replace"]
  | radioSet => ["interface", "activate"]
  | _ => []

/-- What arm of a request a word takes. -/
def arm : RequestKind → Arm
  | apply => .apply
  | explain => .explain
  | wifiScan | wifiStatus | wifiDisconnect | apStations => .interface
  | wifiAdd => .wifiAdd
  | wifiConnect => .wifiConnect
  | wifiForget => .id
  | configPut | probePut => .put
  | profileSave => .profileSave
  | profileSet => .profileSet
  | configDelete | secretDelete => .delete
  | secretPut => .secretPut
  | radioSet => .radioSet
  | _ => .bare

/-- `ncfg_proto_request_kind_from`. -/
def ofName (name : Option Bytes) : Option RequestKind :=
  name.bind fun bytes => all.find? fun kind => asciis kind.name = bytes

end RequestKind

/-! ## Payloads -/

/-- `ncfg_proto_subject_t` : the tag says which of its strings are filled. -/
inductive Subject
  | interface (name : Option Bytes)
  | address (interface address : Option Bytes)
  | route (interface destination : Option Bytes)
  deriving DecidableEq, Repr

/-- `ncfg_proto_eap_t`. -/
structure Eap where
  method : Option Bytes
  identity : Option Bytes
  anonymousIdentity : Option Bytes
  phase2 : Option Bytes
  caCert : Option Bytes
  clientCert : Option Bytes
  deriving DecidableEq, Repr

/-- `ncfg_proto_apply_t`. -/
structure Apply where
  confirm : Option Int64
  allowDisruption : List Bytes
  strandCredentials : List Bytes
  restartWedged : List Bytes
  noRollback : Option Bytes
  deriving DecidableEq, Repr

/-- `ncfg_proto_wifi_add_t`. -/
structure WifiAdd where
  ssid : Option Bytes
  id : Option Bytes
  passphrase : Option Bytes
  proto : Option Bytes
  hidden : Bool
  metric : Option Int64
  eap : Option Eap
  owe : Bool
  deriving DecidableEq, Repr

/-- `ncfg_proto_wifi_connect_t`. -/
structure WifiConnect where
  interface : Option Bytes
  network : Option Bytes
  deriving DecidableEq, Repr

/-- `ncfg_proto_put_t`. -/
structure Put where
  name : Option Bytes
  text : Option Bytes
  replace : Bool
  deriving DecidableEq, Repr

/-- `ncfg_proto_secret_put_t`. -/
structure SecretPut where
  name : Option Bytes
  value : Option Bytes
  replace : Bool
  deriving DecidableEq, Repr

/-- `ncfg_proto_profile_save_t`. -/
structure ProfileSave where
  name : Option Bytes
  replace : Bool
  deriving DecidableEq, Repr

/-- `ncfg_proto_radio_set_t`. -/
structure RadioSet where
  interface : Option Bytes
  activate : Bool
  deriving DecidableEq, Repr

abbrev Arm.Payload : Arm → Type
  | .bare => Unit
  | .apply => Apply
  | .explain => Subject
  | .interface | .id | .profileSet | .delete => Option Bytes
  | .wifiAdd => WifiAdd
  | .wifiConnect => WifiConnect
  | .put => Put
  | .secretPut => SecretPut
  | .profileSave => ProfileSave
  | .radioSet => RadioSet

/-- `ncfg_proto_request_t`. -/
structure Request where
  kind : RequestKind
  payload : kind.arm.Payload

/-! ## Encoding -/

/-- `missing`. -/
def missing {α : Type} (kind name : String) : Except String α :=
  .error s!"a `{kind}` request needs `{name}` and has none"

/-- `encode_subject`. -/
def encodeSubject : Subject → Except String (List Field)
  | .interface name =>
    if name = none then missing "explain" "subject.name"
    else .ok [("subject", some (.scalar (.string (asciis "interface")))), ("name", str name)]
  | .address interface address =>
    if interface = none ∨ address = none then
      missing "explain" "subject.interface and subject.address"
    else .ok [("subject", some (.scalar (.string (asciis "address")))),
      ("interface", str interface), ("address", str address)]
  | .route interface destination =>
    if interface = none ∨ destination = none then
      missing "explain" "subject.interface and subject.destination"
    else .ok [("subject", some (.scalar (.string (asciis "route")))),
      ("interface", str interface), ("destination", str destination)]

/-- What is written of an `eap`. -/
def eapFields (e : Eap) : List Field :=
  [("method", str e.method), ("identity", str e.identity),
    ("anonymous_identity", str e.anonymousIdentity), ("phase2", str e.phase2),
    ("ca_cert", str e.caCert), ("client_cert", str e.clientCert)]

/-- What is written of a `wifi_add`. -/
def wifiAddFields (w : WifiAdd) : List Field :=
  [("ssid", str w.ssid), ("id", str w.id), ("passphrase", str w.passphrase),
    ("proto", str w.proto), ("hidden", flag w.hidden), ("metric", int w.metric),
    ("eap", w.eap.map fun e => .object (written (eapFields e))), ("owe", flag w.owe)]

/-- `encode_payload`, of a kind of a name. -/
def encodePayload (kind : String) : (a : Arm) → a.Payload → Except String (List Field)
  | .bare, _ => .ok []
  | .apply, a => .ok [("confirm", int a.confirm), ("allow_disruption", strs a.allowDisruption),
      ("strand_credentials", strs a.strandCredentials), ("restart_wedged", strs a.restartWedged),
      ("no_rollback", str a.noRollback)]
  | .explain, s => (encodeSubject s).map fun fields =>
    [("subject", some (.object (written fields)))]
  | .interface, interface =>
    if interface = none then missing kind "interface" else .ok [("interface", str interface)]
  | .wifiAdd, w =>
    if w.ssid = none then missing kind "ssid"
    else if ∃ e ∈ w.eap, e.method = none ∨ e.identity = none then
      missing kind "eap.method and eap.identity"
    else .ok (wifiAddFields w)
  | .wifiConnect, c =>
    if c.interface = none then missing kind "interface"
    else if c.network = none then missing kind "network"
    else .ok [("interface", str c.interface), ("network", str c.network)]
  | .id, id => if id = none then missing kind "id" else .ok [("id", str id)]
  | .put, p =>
    if p.name = none then missing kind "name"
    else if p.text = none then missing kind "text"
    else .ok [("name", str p.name), ("text", str p.text), ("replace", flag p.replace)]
  | .secretPut, p =>
    if p.name = none then missing kind "name"
    else if p.value = none then missing kind "value"
    else .ok [("name", str p.name), ("value", str p.value), ("replace", flag p.replace)]
  | .profileSet, name => .ok [("name", str name)]
  | .delete, name => if name = none then missing kind "name" else .ok [("name", str name)]
  | .profileSave, p =>
    if p.name = none then missing kind "name"
    else .ok [("name", str p.name), ("replace", flag p.replace)]
  | .radioSet, r =>
    if r.interface = none then missing kind "interface"
    else .ok [("interface", str r.interface), ("activate", some (.scalar (.bool r.activate)))]

/-- The line a request makes : the tag, and its members beside it. -/
def requestLine (kind : RequestKind) (fields : List Field) : Script :=
  .object (written (("request", some (.scalar (.string (asciis kind.name)))) :: fields))

/-- `ncfg_proto_request_encode`, into an empty buffer of a limit. -/
def requestEncode (limit : ℕ) (r : Request) : Except String Bytes :=
  match encodePayload r.kind.name r.kind.arm r.payload with
  | .error why => .error why
  | .ok fields =>
    let w := write limit (requestLine r.kind fields).calls
    let why := w.failure.getD "it was left unfinished"
    if w.done then .ok w.buf.bytes else .error s!"the request could not be written: {why}"

/-! ## Decoding -/

/-- `decode_subject`. -/
def decodeSubject : Doc → Except String Subject
  | .object ms => do
    let what := "an `explain` subject"
    let tag ← getStr ms "subject" true what
    if tag = some (asciis "interface") then do
      let name ← getStr ms "name" true what
      checkMembers ms ["subject", "name"] what
      .ok (.interface name)
    else if tag = some (asciis "address") then do
      let interface ← getStr ms "interface" true what
      let address ← getStr ms "address" true what
      checkMembers ms ["subject", "interface", "address"] what
      .ok (.address interface address)
    else if tag = some (asciis "route") then do
      let interface ← getStr ms "interface" true what
      let destination ← getStr ms "destination" true what
      checkMembers ms ["subject", "interface", "destination"] what
      .ok (.route interface destination)
    else
      let asked := shown (tag.getD [])
      .error s!"`{asked}` is not something `explain` can be asked about"
  | _ => .error "`subject` on this request is not an object"

/-- The members of an `eap`. -/
def eapMembers : List String :=
  ["method", "identity", "anonymous_identity", "phase2", "ca_cert", "client_cert"]

/-- `decode_eap`. -/
def decodeEap : Doc → Except String Eap
  | .object ms => do
    let what := "a `wifi_add` eap"
    let method ← getStr ms "method" true what
    let identity ← getStr ms "identity" true what
    let anonymousIdentity ← getStr ms "anonymous_identity" false what
    let phase2 ← getStr ms "phase2" false what
    let caCert ← getStr ms "ca_cert" false what
    let clientCert ← getStr ms "client_cert" false what
    checkMembers ms ("method" :: eapMembers) what
    .ok { method, identity, anonymousIdentity, phase2, caCert, clientCert }
  | _ => .error "`eap` on this request is not an object"

/-- An `eap` that is there. -/
def decodeEapMember (ms : Members) : Except String (Option Eap) :=
  match present ms "eap" with
  | none => .ok none
  | some d => (decodeEap d).map some

def decodePayload (ms : Members) (what : String) : (a : Arm) → Except String a.Payload
  | .bare => .ok ()
  | .apply => do
    let confirm ← getInt ms "confirm" false what
    let allowDisruption ← getStrs ms "allow_disruption" false what
    let strandCredentials ← getStrs ms "strand_credentials" false what
    let restartWedged ← getStrs ms "restart_wedged" false what
    let noRollback ← getStr ms "no_rollback" false what
    .ok ({ confirm, allowDisruption, strandCredentials, restartWedged, noRollback } : Apply)
  | .explain =>
    match member? ms "subject" with
    | none => .error s!"{what} is missing `subject`"
    | some d => decodeSubject d
  | .interface => getStr ms "interface" true what
  | .wifiAdd => do
    let ssid ← getStr ms "ssid" true what
    let id ← getStr ms "id" false what
    let passphrase ← getStr ms "passphrase" false what
    let proto ← getStr ms "proto" false what
    let hidden ← getBool ms "hidden" false false what
    let owe ← getBool ms "owe" false false what
    let metric ← getInt ms "metric" false what
    let eap ← decodeEapMember ms
    .ok ({ ssid, id, passphrase, proto, hidden, metric, eap, owe } : WifiAdd)
  | .wifiConnect => do
    let interface ← getStr ms "interface" true what
    let network ← getStr ms "network" true what
    .ok ({ interface, network } : WifiConnect)
  | .id => getStr ms "id" true what
  | .put => do
    let name ← getStr ms "name" true what
    let text ← getStr ms "text" true what
    let replace ← getBool ms "replace" false false what
    .ok ({ name, text, replace } : Put)
  | .secretPut => do
    let name ← getStr ms "name" true what
    let value ← getStr ms "value" true what
    let replace ← getBool ms "replace" false false what
    .ok ({ name, value, replace } : SecretPut)
  | .profileSet => getStr ms "name" false what
  | .delete => getStr ms "name" true what
  | .profileSave => do
    let name ← getStr ms "name" true what
    let replace ← getBool ms "replace" false false what
    .ok ({ name, replace } : ProfileSave)
  | .radioSet => do
    let interface ← getStr ms "interface" true what
    let activate ← getBool ms "activate" true false what
    .ok ({ interface, activate } : RadioSet)

/-- `ncfg_proto_decode_request`. -/
def decodeRequest (ms : Members) : Except String Request := do
  let what := "this request"
  let tag ← getStr ms "request" true what
  match RequestKind.ofName tag with
  | none =>
    let asked := shown (tag.getD [])
    .error s!"`{asked}` is not a request this speaks"
  | some kind => do
    let payload ← decodePayload ms what kind.arm
    checkMembers ms ("request" :: kind.members) what
    .ok { kind, payload }

/-- `ncfg_proto_request_read` of a line. -/
def requestRead (line : Bytes) : Except String Request :=
  match document line with
  | .error why => .error why
  | .ok (.object ms) =>
    if (member? ms "request").isSome then decodeRequest ms
    else if (member? ms "response").isSome then
      .error "a response arrived where one was not expected"
    else if (member? ms "event").isSome then .error "a event arrived where one was not expected"
    else .error
      "a message carries a `request`, a `response` or an `event` and this carries none"
  | .ok _ => .error "a message is a JSON object and this is not one"

/-! ## Events -/

/-- `ncfg_proto_event_t` : the kind says which of its members are filled. -/
inductive Event
  | observed (summary : Option Bytes)
  | reloaded (ok : Bool) (diagnostics : Option Bytes)
  | drift (interface summary action : Option Bytes)
  | confirmArmed (seconds : Int64)
  | confirmResolved (confirmed : Bool)
  deriving DecidableEq, Repr

/-- `event_names`. -/
def Event.name : Event → String
  | observed _ => "observed"
  | reloaded _ _ => "reloaded"
  | drift _ _ _ => "drift"
  | confirmArmed _ => "confirm_armed"
  | confirmResolved _ => "confirm_resolved"

/-- `write_str` of a required string : an absent one is written as the empty one. -/
def strOrEmpty (text : Option Bytes) : Option Script :=
  (str text).or (some (.scalar (.string [])))

def eventFields : Event → List Field
  | .observed summary => [("summary", strOrEmpty summary)]
  | .reloaded ok diagnostics =>
    [("ok", some (.scalar (.bool ok))), ("diagnostics", str diagnostics)]
  | .drift interface summary action =>
    [("interface", strOrEmpty interface), ("summary", strOrEmpty summary),
      ("action", strOrEmpty action)]
  | .confirmArmed seconds => [("seconds", int (some seconds))]
  | .confirmResolved confirmed => [("confirmed", some (.scalar (.bool confirmed)))]

def eventLine (wrapped : Bool) (e : Event) : Script :=
  .object (written
    (("response", if wrapped then some (.scalar (.string (asciis "event"))) else none) ::
      ("event", some (.scalar (.string (asciis e.name)))) :: eventFields e))

/-- `ncfg_proto_event_encode`, into an empty buffer of a limit. -/
def eventEncode (limit : ℕ) (wrapped : Bool) (e : Event) : Except String Bytes :=
  let w := write limit (eventLine wrapped e).calls
  let name := e.name
  let why := w.failure.getD "it was left unfinished"
  if w.done then .ok w.buf.bytes else .error s!"the {name} event could not be written: {why}"

/-- `ncfg_proto_decode_event`. -/
def decodeEvent (ms : Members) : Except String Event := do
  let what := "this event"
  let tag ← getStr ms "event" true what
  if tag = some (asciis "observed") then do
    let summary ← getStr ms "summary" true what
    .ok (.observed summary)
  else if tag = some (asciis "reloaded") then do
    let ok ← getBool ms "ok" true false what
    let diagnostics ← getStr ms "diagnostics" false what
    .ok (.reloaded ok diagnostics)
  else if tag = some (asciis "drift") then do
    let interface ← getStr ms "interface" true what
    let summary ← getStr ms "summary" true what
    let action ← getStr ms "action" true what
    .ok (.drift interface summary action)
  else if tag = some (asciis "confirm_armed") then do
    let seconds ← getInt ms "seconds" true what
    .ok (.confirmArmed (seconds.getD 0))
  else if tag = some (asciis "confirm_resolved") then do
    let confirmed ← getBool ms "confirmed" true false what
    .ok (.confirmResolved confirmed)
  else
    let asked := shown (tag.getD [])
    .error s!"`{asked}` is not an event this speaks"

/-- A line as an event. -/
def eventRead (line : Bytes) : Except String Event :=
  match document line with
  | .error why => .error why
  | .ok (.object ms) => decodeEvent ms
  | .ok _ => .error "a message is a JSON object and this is not one"

end Netcfgd.Proto
