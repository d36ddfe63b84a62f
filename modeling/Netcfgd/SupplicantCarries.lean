import Netcfgd.SupplicantNetwork

/-!
# The supplicant receives what the document holds

What a network, a wired port or a mesh holds for each setting (`Joining.held`), against what the
supplicant reads of the commands it is sent : between the first and the last quote it takes every
byte as it stands, and a bare value is a word or hex.

`quote` puts a backslash before a quote and before a backslash, which the supplicant reads as part
of the value, and only credentials are looked at for a newline before anything is sent. So what is
received is what was held exactly when no text that is quoted has one of these, and every command
fits (`carried_iff`).
-/

namespace Netcfgd.Supplicant

open Json (ascii asciis decimal decimalDigits hexDigit)

/-! ## What the document holds -/

/-- A value : a word as it stands, bytes given in hex, or a text. -/
inductive Value
  | word (bytes : Bytes)
  | hex (bytes : Bytes)
  | text (bytes : Bytes)

/-- A variable of the supplicant, and what it should hold. -/
structure Held where
  name : String
  value : Value

section Held

variable {ρ σ : Type}

def word (name : String) (text : String) : List Held := [⟨name, .word (asciis text)⟩]

def heldCredential (resolver : Resolver ρ σ) (name : String) (reference : ρ) : List Held :=
  match resolver.resolve reference with
  | .ok secret => [⟨name, .text secret⟩]
  | .error _ => []

def heldPath (resolver : Resolver ρ σ) (name : String) (source : σ) (role : String) : List Held :=
  match resolver.pathFor source role with
  | .ok path => [⟨name, .text path.bytes⟩]
  | .error _ => []

def heldText (name : String) (value : Option Str) : List Held :=
  value.elim [] fun text => [⟨name, .text text.bytes⟩]

def heldPsk (resolver : Resolver ρ σ) (psk : PskConfig ρ) : List Held :=
  heldCredential resolver (if psk.proto = .wpa3 then "sae_password" else "psk") psk.passphrase ++
    (word "key_mgmt" (match psk.proto with
      | .wpa2 => "WPA-PSK FT-PSK"
      | .wpa3 => "SAE FT-SAE"
      | .wpa2Wpa3 => "WPA-PSK SAE FT-PSK FT-SAE") ++
    (word "proto" "RSN" ++ word "ieee80211w" (if psk.proto = .wpa3 then "2" else "1")))

def heldEapRest (resolver : Resolver ρ σ) (eap : EapConfig ρ σ) : List Held :=
  word "eap" (eapName eap.method) ++
    (heldText "identity" (some (eap.identity.getD default)) ++
    (heldText "anonymous_identity" eap.anonymousIdentity ++
    (eap.caCert.elim [] (fun source => heldPath resolver "ca_cert" source "ca.pem") ++
    (heldText "domain_suffix_match" eap.domainSuffixMatch ++
    (eap.clientCert.elim [] (fun source => heldPath resolver "client_cert" source "client.pem") ++
    (heldText "phase2" eap.phase2 ++
    if eap.method = .tls then
      eap.privateKey.elim [] fun source => heldPath resolver "private_key" source "client.key"
    else eap.password.elim [] fun password => heldCredential resolver "password" password))))))

def heldEap (resolver : Resolver ρ σ) (keyMgmt : String) (eap : EapConfig ρ σ) : List Held :=
  word "key_mgmt" keyMgmt ++ heldEapRest resolver eap

def heldMesh (resolver : Resolver ρ σ) (mesh : Mesh ρ) : List Held :=
  [⟨"ssid", .hex (mesh.meshId.getD [])⟩] ++ (word "mode" "5" ++
    ([⟨"frequency", .word (decimal (frequencyOf (mesh.channel.getD 0)))⟩] ++
    (word "beacon_int" "100" ++
    match mesh.passphrase with
    | none => word "key_mgmt" "NONE"
    | some passphrase => heldCredential resolver "sae_password" passphrase ++
        (word "key_mgmt" "SAE" ++ word "ieee80211w" "2"))))

def heldBssid : List Str → List Held
  | [] => []
  | [one] => [⟨"bssid", .word one.bytes⟩]
  | bssid => [⟨"bssid_accept", .word ([ascii ' '].intercalate
      (bssid.map fun text => text.bytes ++ asciis "/ff:ff:ff:ff:ff:ff"))⟩]

def heldNetwork (resolver : Resolver ρ σ) (wifi : WifiNetwork ρ σ) (resolvedSsid : Option Bytes)
    (macPolicy : MacPolicy) : List Held :=
  [⟨"ssid", .hex ((wifi.ssid.or resolvedSsid).getD [])⟩] ++
    (word "mac_addr" (macAddrValue macPolicy) ++
    ((if wifi.hidden then word "scan_ssid" "1" else []) ++
    (heldBssid wifi.bssid ++
    (wifi.roam.elim [] (fun roam => [⟨"bgscan", .text (roamModule roam)⟩]) ++
    (wifi.metric.elim [] (fun metric => [⟨"priority", .word (decimal (joinRank metric))⟩]) ++
    match wifi.security with
    | .unsecured => word "key_mgmt" "NONE"
    | .psk psk => heldPsk resolver psk
    | .eap eap => heldEap resolver "WPA-EAP FT-EAP" eap
    | .owe => word "key_mgmt" "OWE" ++ word "ieee80211w" "2")))))

/-- What a joining is held as. -/
def Joining.held (resolver : Resolver ρ σ) : Joining ρ σ → List Held
  | .network wifi resolvedSsid macPolicy => heldNetwork resolver wifi resolvedSsid macPolicy
  | .wired eap => heldEap resolver "IEEE8021X" eap ++ word "eapol_flags" "0"
  | .mesh point => heldMesh resolver point

end Held

/-! ## What the supplicant reads -/

/-- A quoted value : the bytes between the first quote and the last. -/
def quotedValue : Bytes → Option Bytes
  | [] => none
  | c :: rest =>
    if c = ascii '"' then
      (rest.reverse.dropWhile fun c => c ≠ ascii '"').tail?.map List.reverse
    else none

def hexBytes : Bytes → Option Bytes
  | [] => some []
  | high :: low :: rest =>
    match hexValue high, hexValue low, hexBytes rest with
    | some h, some l, some bytes => some (UInt8.ofNat (h * 16 + l) :: bytes)
    | _, _, _ => none
  | [_] => none

def Value.ReadFrom (text : Bytes) : Value → Prop
  | .word bytes => text = bytes
  | .hex bytes => hexBytes text = some bytes
  | .text bytes => quotedValue text = some bytes

/-- The variable and the value of a `SET_NETWORK` command. -/
def heard (line : Bytes) : Bytes × Bytes :=
  let rest := ((line.drop 12).dropWhile (· ≠ ascii ' ')).drop 1
  (rest.takeWhile (· ≠ ascii ' '), (rest.dropWhile (· ≠ ascii ' ')).drop 1)

def Gives (line : Bytes) (held : Held) : Prop :=
  (heard line).1 = asciis held.name ∧ held.value.ReadFrom (heard line).2

/-- A `SET_NETWORK` command. -/
def isSet (line : Bytes) : Bool := (asciis "SET_NETWORK ").isPrefixOf line

/-- Everything the supplicant receives is what was held : each `SET_NETWORK` command is one line,
and gives its variable what it should hold, in order; and what cannot be sent is refused while no
command of the network has been. -/
structure Carried {ρ σ : Type} (world : World) (resolver : Resolver ρ σ) (joining : Joining ρ σ) :
    Prop where
  lines : ∀ line ∈ (joining.configure world resolver).2, isSet line → 0 ∉ line ∧ 10 ∉ line
  read : ∀ (k : ℕ) (line : Bytes),
      ((joining.configure world resolver).2.filter isSet)[k]? = some line →
    ∃ h, (joining.held resolver)[k]? = some h ∧ Gives line h
  refused : ∀ why, (joining.configure world resolver).1 = .error (.unsendable why) →
    ∀ text ∈ (joining.configure world resolver).2, text = asciis "REMOVE_NETWORK all"

/-! ## Settings and what they hold -/

section Renders

variable {ρ σ : Type} {resolver : Resolver ρ σ}

def Value.rendered : Value → Bytes
  | .word bytes => bytes
  | .hex bytes => bytes.flatMap fun c => [hexDigit (c.toNat / 16), hexDigit (c.toNat % 16)]
  | .text bytes => ascii '"' :: (bytes.flatMap quoteByte ++ [ascii '"'])

def OneLine (bytes : Bytes) : Prop := ∀ c ∈ bytes, c ≠ 0 ∧ c ≠ 10 ∧ c ≠ 13

instance : DecidablePred OneLine := fun bytes => List.decidableBAll _ bytes

/-- What a value is from the start : a word is of one line, and a text is a string. -/
def Value.Sound : Value → Prop
  | .word bytes => OneLine bytes
  | .hex _ => True
  | .text bytes => 0 ∉ bytes

def isName (name : String) : Bool :=
  (asciis name).length ≤ 32 && (asciis name).all fun c =>
    c ≠ 0 && c ≠ 10 && c ≠ 13 && c ≠ ascii ' '

structure Renders (resolver : Resolver ρ σ) (setting : Setting ρ) (h : Held) : Prop where
  name : setting.name = h.name
  isName : isName h.name = true
  value : settingValue resolver setting = .ok h.value.rendered
  shown : setting.sensitive = false → setting.secret = none
  sound : h.value.Sound

def AddsHeld (resolver : Resolver ρ σ) (added : Adds ρ) (held : List Held) : Prop :=
  ∀ settings, added = .ok settings → List.Forall₂ (Renders resolver) settings held

def lineFor (id : ℕ) (h : Held) : Bytes := commandStart id h.name ++ h.value.rendered

/-- What is held can be carried : a text has nothing in it that is escaped, or that breaks the line,
and the command fits. -/
structure Held.Plain (h : Held) : Prop where
  text : ∀ bytes, h.value = .text bytes →
    ∀ c ∈ bytes, (c ≠ ascii '"' ∧ c ≠ ascii '\\') ∧ c ≠ 10 ∧ c ≠ 13
  fits : (lineFor 4294967295 h).length ≤ bufLimit

theorem addsHeld_nil : AddsHeld resolver (.ok []) [] := by
  intro settings h
  obtain rfl := Except.ok.inj h
  exact .nil

variable {setting : Setting ρ} {h : Held}

theorem addsHeld_one (hr : Renders resolver setting h) :
    AddsHeld resolver (.ok [setting]) [h] := by
  intro settings heq
  obtain rfl := Except.ok.inj heq
  exact .cons hr .nil

theorem addsHeld_error (why : String) (held : List Held) :
    AddsHeld resolver (.error why) held := by
  intro settings h
  cases h

theorem addsHeld_adds_nil : AddsHeld resolver (adds []) [] := addsHeld_nil

variable {held : List Held}

theorem addsHeld_adds {one : Adds ρ} {more : List (Adds ρ)} {rest : List Held}
    (h : AddsHeld resolver one held) (hmore : AddsHeld resolver (adds more) rest) :
    AddsHeld resolver (adds (one :: more)) (held ++ rest) := by
  intro settings heq
  rw [adds] at heq
  cases hone : one with
  | error why =>
    rw [hone] at heq
    cases heq
  | ok first =>
    cases hrest : adds more with
    | error why =>
      rw [hone, hrest] at heq
      cases heq
    | ok others =>
      rw [hone, hrest] at heq
      obtain rfl := Except.ok.inj heq
      exact List.rel_append (h first hone) (hmore others hrest)

theorem addsHeld_last {one : Adds ρ} (h : AddsHeld resolver one held) :
    AddsHeld resolver (adds [one]) held := by
  simpa using addsHeld_adds h addsHeld_adds_nil

theorem addsHeld_whenSome {α : Type} {value : Option α} {add : α → Adds ρ} {held : α → List Held}
    (h : ∀ a, AddsHeld resolver (add a) (held a)) :
    AddsHeld resolver (whenSome value add) (value.elim [] held) := by
  cases value with
  | none => exact addsHeld_nil
  | some a => exact h a

variable {name : String}

theorem addPlain_word {value : Bytes} (hname : isName name = true) (hvalue : OneLine value) :
    AddsHeld resolver (addPlain name value) [⟨name, .word value⟩] :=
  addsHeld_one ⟨rfl, hname, rfl, fun _ => rfl, hvalue⟩

theorem addPlain_asciis {value : String} (hname : isName name = true)
    (hvalue : OneLine (asciis value)) :
    AddsHeld resolver (addPlain name (asciis value)) (word name value) :=
  addPlain_word hname hvalue

variable {bytes a text : Bytes}

theorem addPlain_hex {hex : Bytes} (hname : isName name = true)
    (hhex : ssidArgument bytes = some hex) :
    AddsHeld resolver (addPlain name hex) [⟨name, .hex bytes⟩] := by
  unfold ssidArgument at hhex
  split_ifs at hhex
  obtain rfl := Option.some.inj hhex
  exact addsHeld_one ⟨rfl, hname, rfl, fun _ => rfl, trivial⟩

theorem cString_of_noNul (h : 0 ∉ bytes) : cString bytes = bytes := by
  rw [cString, List.takeWhile_eq_self_iff]
  intro c hc
  have : c ≠ 0 := fun hzero => h (hzero ▸ hc)
  simpa using this

theorem quote_eq (h : 0 ∉ bytes) : quote bytes = (Value.text bytes).rendered := by
  rw [quote, cString_of_noNul h, Value.rendered]

theorem addQuoted_text (hname : isName name = true) (value : Str) (sensitive : Bool) :
    AddsHeld resolver (addQuoted name value sensitive) (heldText name (some value)) := by
  unfold addQuoted
  split_ifs
  · exact addsHeld_error _ _
  · refine addsHeld_one ⟨rfl, hname, ?_, fun _ => rfl, value.noNul⟩
    rw [← quote_eq value.noNul]
    rfl

theorem whenSome_text (hname : isName name = true) (value : Option Str) (sensitive : Bool) :
    AddsHeld resolver (whenSome value fun text => addQuoted name text sensitive)
      (heldText name value) := by
  cases value with
  | none => exact addsHeld_nil
  | some text => exact addQuoted_text hname text sensitive

theorem addCertificate_path (hname : isName name = true) (source : σ) (role : String) :
    AddsHeld resolver (addCertificate resolver name source role)
      (heldPath resolver name source role) := by
  unfold addCertificate heldPath
  cases resolver.pathFor source role with
  | error why => exact addsHeld_error _ _
  | ok path => exact addQuoted_text hname path false

theorem addSecret_credential (hname : isName name = true) (reference : ρ)
    (checkLength : Bool) {more : List (Adds ρ)} {rest : List Held}
    (hmore : AddsHeld resolver (adds more) rest) :
    AddsHeld resolver
      (adds (credentialIsUsable resolver reference checkLength :: addSecret name reference :: more))
      (heldCredential resolver name reference ++ rest) := by
  intro settings heq
  rw [adds, credentialIsUsable, heldCredential] at *
  cases hsecret : resolver.resolve reference with
  | error why =>
    rw [hsecret] at heq
    cases heq
  | ok secret =>
    rw [hsecret] at heq
    simp only [Except.bind] at heq
    split_ifs at heq with hbad hlength
    have hnul : 0 ∉ secret := by
      intro hzero
      refine hbad (.inl fun hlength => ?_)
      have hpre : cString secret <+: secret := List.takeWhile_prefix _
      have hall : cString secret = secret := hpre.eq_of_length hlength.symm
      rw [cString, List.takeWhile_eq_self_iff] at hall
      simpa using hall 0 hzero
    have hone : AddsHeld resolver (addSecret name reference) [⟨name, .text secret⟩] := by
      refine addsHeld_one ⟨rfl, hname, ?_, fun h => absurd h (by simp), hnul⟩
      simp only [settingValue, hsecret, Except.map, quote_eq hnul]
    cases hrest : adds (addSecret name reference :: more) with
    | error why =>
      rw [hrest] at heq
      cases heq
    | ok others =>
      rw [hrest] at heq
      obtain rfl := Except.ok.inj heq
      exact addsHeld_adds hone hmore others hrest

/-! ## What each of them adds -/

theorem pskSettings_held (psk : PskConfig ρ) :
    AddsHeld resolver (pskSettings resolver psk) (heldPsk resolver psk) := by
  have hname : isName (if psk.proto = .wpa3 then "sae_password" else "psk") = true := by
    split_ifs <;> rfl
  refine addSecret_credential hname psk.passphrase _ (addsHeld_adds ?_ (addsHeld_adds
    (addPlain_asciis rfl (by decide)) (addsHeld_last ?_)))
  · cases psk.proto with
    | wpa2 => exact addPlain_asciis rfl (by decide)
    | wpa3 => exact addPlain_asciis rfl (by decide)
    | wpa2Wpa3 => exact addPlain_asciis rfl (by decide)
  · split_ifs
    · exact addPlain_asciis rfl (by decide)
    · exact addPlain_asciis rfl (by decide)

variable {settings : List (Setting ρ)}

theorem adds_cons_ok {one : Adds ρ} {more : List (Adds ρ)} (h : adds (one :: more) = .ok settings) :
    ∃ first rest, one = .ok first ∧ adds more = .ok rest ∧ settings = first ++ rest := by
  rw [adds] at h
  cases hone : one with
  | error why =>
    rw [hone] at h
    cases h
  | ok first =>
    cases hmore : adds more with
    | error why =>
      rw [hone, hmore] at h
      cases h
    | ok rest =>
      rw [hone, hmore] at h
      exact ⟨first, rest, rfl, rfl, (Except.ok.inj h).symm⟩

theorem eapSettings_split {eap : EapConfig ρ σ} (h : eapSettings resolver eap = .ok settings) :
    ∃ rest, settings = ⟨"key_mgmt", some (asciis "WPA-EAP FT-EAP"), none, false⟩ :: rest ∧
      List.Forall₂ (Renders resolver) rest (heldEapRest resolver eap) := by
  obtain ⟨first, rest, hfirst, hrest, rfl⟩ := adds_cons_ok h
  obtain rfl := Except.ok.inj hfirst
  refine ⟨rest, rfl, ?_⟩
  revert rest
  refine fun rest hrest _ => (?_ : AddsHeld resolver _ (heldEapRest resolver eap)) rest hrest
  refine addsHeld_adds ?_
    (addsHeld_adds (addQuoted_text rfl _ true) (addsHeld_adds (whenSome_text rfl _ false)
    (addsHeld_adds (addsHeld_whenSome fun source => addCertificate_path rfl source _)
    (addsHeld_adds (whenSome_text rfl _ false)
    (addsHeld_adds (addsHeld_whenSome fun source => addCertificate_path rfl source _)
    (addsHeld_adds (whenSome_text rfl _ false) (addsHeld_last ?_)))))))
  · cases eap.method with
    | peap => exact addPlain_asciis rfl (by decide)
    | ttls => exact addPlain_asciis rfl (by decide)
    | tls => exact addPlain_asciis rfl (by decide)
    | pwd => exact addPlain_asciis rfl (by decide)
  · split_ifs
    · cases eap.privateKey with
      | none => exact addsHeld_error _ _
      | some source => exact addCertificate_path rfl source _
    · cases eap.password with
      | none => exact addsHeld_error _ _
      | some password =>
        have hname : isName "password" = true := rfl
        simpa using addSecret_credential hname password false addsHeld_adds_nil

theorem exists_held (h : List.Forall₂ (Renders resolver) settings held)
    (hsetting : setting ∈ settings) : ∃ h ∈ held, Renders resolver setting h := by
  induction h with
  | nil => cases hsetting
  | cons hr _ ih =>
    rcases List.mem_cons.mp hsetting with rfl | hsetting
    · exact ⟨_, List.mem_cons_self .., hr⟩
    · obtain ⟨h, hh, hr⟩ := ih hsetting
      exact ⟨h, List.mem_cons_of_mem _ hh, hr⟩

theorem renders_keyMgmt {value : String} (h : OneLine (asciis value)) :
    Renders resolver ⟨"key_mgmt", some (asciis value), none, false⟩
      ⟨"key_mgmt", .word (asciis value)⟩ :=
  ⟨rfl, (rfl : isName "key_mgmt" = true), rfl, fun _ => rfl, h⟩

theorem eapSettings_held (eap : EapConfig ρ σ) :
    AddsHeld resolver (eapSettings resolver eap) (heldEap resolver "WPA-EAP FT-EAP" eap) := by
  intro settings h
  obtain ⟨rest, rfl, hrest⟩ := eapSettings_split h
  exact .cons (renders_keyMgmt (by decide)) hrest

theorem heldEapRest_name (eap : EapConfig ρ σ) :
    ∀ h ∈ heldEapRest resolver eap, h.name ≠ "key_mgmt" := by
  have htext {name : String} (hne : name ≠ "key_mgmt") (value : Option Str) :
      ∀ h ∈ heldText name value, h.name ≠ "key_mgmt" := by
    cases value <;> simp [heldText, hne]
  have hpath {name : String} (hne : name ≠ "key_mgmt") (source : Option σ) (role : String) :
      ∀ h ∈ source.elim [] fun source => heldPath resolver name source role,
        h.name ≠ "key_mgmt" := by
    rcases source with _ | source
    · simp
    · simp only [Option.elim, heldPath]
      cases resolver.pathFor source role <;> simp [hne]
  have hpassword : ∀ h ∈ eap.password.elim [] fun password =>
      heldCredential resolver "password" password, h.name ≠ "key_mgmt" := by
    rcases eap.password with _ | password
    · simp
    · simp only [Option.elim, heldCredential]
      cases resolver.resolve password <;> simp
  intro h hh
  simp only [heldEapRest, List.mem_append] at hh
  rcases hh with hh | hh | hh | hh | hh | hh | hh | hh
  · rw [List.mem_singleton.mp hh]
    exact (by simp : "eap" ≠ "key_mgmt")
  · exact htext (by simp) _ h hh
  · exact htext (by simp) _ h hh
  · exact hpath (by simp) _ _ h hh
  · exact htext (by simp) _ h hh
  · exact hpath (by simp) _ _ h hh
  · exact htext (by simp) _ h hh
  · split_ifs at hh
    · exact hpath (by simp) _ _ h hh
    · exact hpassword h hh

theorem wiredSettings_held (eap : EapConfig ρ σ) :
    AddsHeld resolver (wiredSettings resolver eap)
      (heldEap resolver "IEEE8021X" eap ++ word "eapol_flags" "0") := by
  intro settings heq
  unfold wiredSettings at heq
  cases heap : eapSettings resolver eap with
  | error why =>
    rw [heap] at heq
    cases heq
  | ok wifi =>
    rw [heap] at heq
    obtain rfl := Except.ok.inj heq
    obtain ⟨rest, rfl, hrest⟩ := eapSettings_split heap
    have hflags : OneLine (asciis "0") := by decide
    refine List.rel_append ?_ (.cons ⟨rfl, rfl, rfl, fun _ => rfl, hflags⟩ .nil)
    refine .cons (renders_keyMgmt (by decide)) ?_
    have hsame : ∀ setting ∈ rest, (if setting.name = "key_mgmt" then
        { setting with value := some (asciis "IEEE8021X") } else setting) = setting := by
      intro setting hsetting
      obtain ⟨h, hh, hr⟩ := exists_held hrest hsetting
      exact if_neg (hr.name ▸ heldEapRest_name eap h hh)
    rw [List.map_congr_left hsame, List.map_id']
    exact hrest

theorem oneLine_append {b : Bytes} (ha : OneLine a) (hb : OneLine b) : OneLine (a ++ b) := by
  intro c hc
  rcases List.mem_append.mp hc with hc | hc
  · exact ha c hc
  · exact hb c hc

theorem oneLine_intercalate {sep : Bytes} (hsep : OneLine sep) : ∀ {texts : List Bytes},
    (∀ text ∈ texts, OneLine text) → OneLine (sep.intercalate texts) := by
  intro texts
  induction texts with
  | nil => exact fun _ c hc => absurd hc List.not_mem_nil
  | cons text texts ih =>
    intro htexts
    have htext := htexts text (List.mem_cons_self ..)
    have hrest := ih fun other hother => htexts other (List.mem_cons_of_mem _ hother)
    by_cases hnil : texts = []
    · subst hnil
      rwa [List.intercalate_singleton]
    · rw [List.intercalate_cons_of_ne_nil hnil]
      exact oneLine_append (oneLine_append htext hsep) hrest

theorem oneLine_bssid (h : isBssid text = true) : OneLine text := by
  intro c hc
  obtain ⟨index, hindex, rfl⟩ := List.getElem_of_mem hc
  have hall := (Bool.and_eq_true_iff.mp h).2
  rw [List.all_eq_true] at hall
  have hone := hall (text[index], index) (List.mem_zipIdx_iff_getElem?.mpr (by simp [hindex]))
  simp only at hone
  split_ifs at hone with hcolon
  · rw [of_decide_eq_true hone]
    decide
  · refine ⟨?_, ?_, ?_⟩ <;> intro heq <;> rw [heq] at hone <;> exact absurd hone (by decide)

theorem bssidSettings_held (bssid : List Str) :
    AddsHeld resolver (bssidSettings bssid) (heldBssid bssid) := by
  unfold bssidSettings
  cases hfind : bssid.find? fun text => !isBssid text.bytes with
  | some text => exact addsHeld_error _ _
  | none =>
    have hall : ∀ text ∈ bssid, isBssid text.bytes = true := by
      simpa [List.find?_eq_none] using hfind
    match bssid, hall with
    | [], _ => exact addsHeld_nil
    | [one], hall =>
      exact addPlain_word rfl (oneLine_bssid (hall one (List.mem_singleton_self one)))
    | one :: two :: more, hall =>
      dsimp only
      split_ifs
      · exact addsHeld_error _ _
      · refine addPlain_word rfl (oneLine_intercalate (by decide) fun text htext => ?_)
        obtain ⟨address, haddress, rfl⟩ := List.mem_map.mp htext
        exact oneLine_append (oneLine_bssid (hall address haddress)) (by decide)

theorem decimal_plain (n : ℤ) : ∀ c ∈ decimal n,
    c ≠ 0 ∧ c ≠ 10 ∧ c ≠ 13 ∧ c ≠ ascii ' ' ∧ c ≠ ascii '"' ∧ c ≠ ascii '\\' := by
  intro c hc
  rcases List.mem_append.mp hc with hc | hc
  · split_ifs at hc
    · rw [List.mem_singleton.mp hc]
      decide
    · cases hc
  · obtain ⟨d, hd, rfl⟩ := List.mem_map.mp hc
    have hlt := Json.digits_lt _ d hd
    interval_cases d <;> decide

theorem oneLine_decimal (n : ℤ) : OneLine (decimal n) := fun c hc =>
  ⟨(decimal_plain n c hc).1, (decimal_plain n c hc).2.1, (decimal_plain n c hc).2.2.1⟩

theorem flatMap_quoteByte (h : ∀ c ∈ bytes, c ≠ ascii '"' ∧ c ≠ ascii '\\') :
    bytes.flatMap quoteByte = bytes := by
  induction bytes with
  | nil => rfl
  | cons c bytes ih =>
    have hc := h c (List.mem_cons_self ..)
    rw [List.flatMap_cons, ih fun d hd => h d (List.mem_cons_of_mem _ hd), quoteByte,
      if_neg (not_or.mpr hc)]
    rfl

theorem roamModule_plain (roam : Roam) : ∀ c ∈ roamModule roam,
    c ≠ 0 ∧ c ≠ ascii '"' ∧ c ≠ ascii '\\' := by
  have hdecimal (n : ℤ) : ∀ c ∈ decimal n, c ≠ 0 ∧ c ≠ ascii '"' ∧ c ≠ ascii '\\' := fun c hc =>
    ⟨(decimal_plain n c hc).1, (decimal_plain n c hc).2.2.2.2⟩
  have hsimple : ∀ c ∈ asciis "simple:", c ≠ 0 ∧ c ≠ ascii '"' ∧ c ≠ ascii '\\' := by
    decide +kernel
  have hcolon : ascii ':' ≠ 0 ∧ ascii ':' ≠ ascii '"' ∧ ascii ':' ≠ ascii '\\' := by decide
  intro c hc
  simp only [roamModule, List.mem_append, List.mem_cons] at hc
  rcases hc with (hc | hc) | rfl | hc | rfl | hc
  · exact hsimple c hc
  · exact hdecimal _ c hc
  · exact hcolon
  · exact hdecimal _ c hc
  · exact hcolon
  · exact hdecimal _ c hc

theorem addPlain_roam (roam : Roam) :
    AddsHeld resolver (addPlain "bgscan" (ascii '"' :: (roamModule roam ++ [ascii '"'])))
      [⟨"bgscan", .text (roamModule roam)⟩] := by
  have hplain := roamModule_plain roam
  refine addsHeld_one ⟨rfl, (rfl : isName "bgscan" = true), ?_, fun _ => rfl,
    fun hzero => (hplain 0 hzero).1 rfl⟩
  rw [Value.rendered, flatMap_quoteByte fun c hc => (hplain c hc).2]
  rfl

theorem networkSettings_held (wifi : WifiNetwork ρ σ) (resolvedSsid : Option Bytes)
    (macPolicy : MacPolicy) :
    AddsHeld resolver (networkSettings resolver wifi resolvedSsid macPolicy)
      (heldNetwork resolver wifi resolvedSsid macPolicy) := by
  unfold networkSettings heldNetwork
  cases wifi.ssid.or resolvedSsid with
  | none => exact addsHeld_error _ _
  | some ssid =>
    dsimp only
    cases hhex : ssidArgument ssid with
    | none => exact addsHeld_error _ _
    | some hex =>
      refine addsHeld_adds (addPlain_hex rfl hhex) (addsHeld_adds ?_ (addsHeld_adds ?_
        (addsHeld_adds (bssidSettings_held _) (addsHeld_adds (addsHeld_whenSome addPlain_roam)
        (addsHeld_adds (addsHeld_whenSome fun metric => addPlain_word rfl (oneLine_decimal _))
        (addsHeld_last ?_))))))
      · cases macPolicy with
        | permanent => exact addPlain_asciis rfl (by decide)
        | perNetwork => exact addPlain_asciis rfl (by decide)
        | perConnection => exact addPlain_asciis rfl (by decide)
      · split_ifs
        · exact addPlain_asciis rfl (by decide)
        · exact addsHeld_nil
      · cases wifi.security with
        | unsecured => exact addPlain_asciis rfl (by decide)
        | psk psk => exact pskSettings_held psk
        | eap eap => exact eapSettings_held eap
        | owe =>
          exact addsHeld_adds (addPlain_asciis rfl (by decide))
            (addsHeld_last (addPlain_asciis rfl (by decide)))

theorem meshSettings_held (mesh : Mesh ρ) :
    AddsHeld resolver (meshSettings resolver mesh) (heldMesh resolver mesh) := by
  unfold meshSettings heldMesh
  cases mesh.channel with
  | none => exact addsHeld_error _ _
  | some channel =>
    dsimp only
    split_ifs
    · exact addsHeld_error _ _
    · cases hid : mesh.meshId.bind ssidArgument with
      | none => exact addsHeld_error _ _
      | some hex =>
        obtain ⟨ssid, hssid, hhex⟩ := Option.bind_eq_some_iff.mp hid
        rw [hssid]
        refine addsHeld_adds (addPlain_hex rfl hhex) (addsHeld_adds
          (addPlain_asciis rfl (by decide)) (addsHeld_adds (addPlain_word rfl (oneLine_decimal _))
          (addsHeld_adds (addPlain_asciis rfl (by decide)) (addsHeld_last ?_))))
        cases mesh.passphrase with
        | none => exact addPlain_asciis rfl (by decide)
        | some passphrase =>
          exact addSecret_credential rfl passphrase _ (addsHeld_adds
            (addPlain_asciis rfl (by decide)) (addsHeld_last (addPlain_asciis rfl (by decide))))

theorem Joining.settings_held (joining : Joining ρ σ) :
    AddsHeld resolver (joining.settings resolver) (joining.held resolver) := by
  cases joining with
  | network wifi resolvedSsid macPolicy => exact networkSettings_held wifi resolvedSsid macPolicy
  | wired eap => exact wiredSettings_held eap
  | mesh point => exact meshSettings_held point

/-! ## What is sent -/

def Sendable (line : Bytes) : Prop := line.length ≤ bufLimit ∧ ∀ c ∈ line, c ≠ 10 ∧ c ≠ 13

theorem name_plain (h : isName name = true) :
    (asciis name).length ≤ 32 ∧
      ∀ c ∈ asciis name, c ≠ 0 ∧ c ≠ 10 ∧ c ≠ 13 ∧ c ≠ ascii ' ' := by
  obtain ⟨hlength, hall⟩ := Bool.and_eq_true_iff.mp h
  refine ⟨of_decide_eq_true hlength, fun c hc => ?_⟩
  have := List.all_eq_true.mp hall c hc
  simpa [and_assoc] using this

theorem oneLine_commandStart (h : isName name = true) (id : ℕ) :
    OneLine (commandStart id name) := by
  have hspace : OneLine [ascii ' '] := by decide
  have hname : OneLine (asciis name) := fun c hc =>
    ⟨((name_plain h).2 c hc).1, ((name_plain h).2 c hc).2.1, ((name_plain h).2 c hc).2.2.1⟩
  exact oneLine_append (oneLine_append (by decide) (oneLine_decimal _))
    (oneLine_append hspace (oneLine_append hname hspace))

theorem noNul_rendered {value : Value} (h : value.Sound) : 0 ∉ value.rendered := by
  cases value with
  | word bytes => exact fun hzero => (h 0 hzero).1 rfl
  | hex bytes =>
    intro hzero
    simp only [Value.rendered, List.mem_flatMap, List.mem_cons, List.not_mem_nil, or_false] at hzero
    have hdigit {n : ℕ} (hn : n < 16) : hexDigit n ≠ 0 := by
      interval_cases n <;> decide
    obtain ⟨c, -, hc | hc⟩ := hzero
    · exact hdigit (Nat.div_lt_of_lt_mul c.toNat_lt) hc.symm
    · exact hdigit (Nat.mod_lt _ (by decide)) hc.symm
  | text bytes =>
    intro hzero
    have hquote : ascii '"' ≠ 0 := by decide
    have hslash : ascii '\\' ≠ 0 := by decide
    simp only [Value.rendered, List.mem_cons, List.mem_append, List.mem_flatMap,
      List.not_mem_nil, or_false] at hzero
    rcases hzero with hzero | ⟨c, hc, hzero⟩ | hzero
    · exact hquote hzero.symm
    · unfold quoteByte at hzero
      split_ifs at hzero
      · rcases List.mem_cons.mp hzero with hzero | hzero
        · exact hslash hzero.symm
        · obtain rfl := List.mem_singleton.mp hzero
          exact h hc
      · obtain rfl := List.mem_singleton.mp hzero
        exact h hc
    · exact hquote hzero.symm

theorem noNul_lineFor (hr : Renders resolver setting h) (id : ℕ) :
    0 ∉ lineFor id h := by
  intro hzero
  rcases List.mem_append.mp hzero with hzero | hzero
  · exact (oneLine_commandStart hr.isName id 0 hzero).1 rfl
  · exact noNul_rendered hr.sound hzero

theorem request_sent (htext : OneLine text) (hne : text ≠ []) (world : World) (sent : List Bytes) :
    (request world sent text).2 = sent ++ [text] ∧
      (∀ why, (request world sent text).1 ≠ .error (.unsendable why)) ∧
      (∀ reply, (∀ why, reply ≠ .lost why) → world (sent ++ [text]) = reply →
        (request world sent text).1 = .ok reply) := by
  have hstring : cString text = text := cString_of_noNul fun hzero => (htext 0 hzero).1 rfl
  have hline : (text.any fun c => c = 10 || c = 13) = false := by
    rw [List.any_eq_false]
    intro c hc
    simpa using (htext c hc).2
  simp only [request, hstring, hline, if_neg hne, Bool.false_eq_true, if_false]
  cases world (sent ++ [text]) with
  | lost why =>
    refine ⟨rfl, by simp, fun reply hreply heq => absurd heq.symm (hreply why)⟩
  | ok => exact ⟨rfl, by simp, fun reply _ heq => by rw [← heq]⟩
  | fail => exact ⟨rfl, by simp, fun reply _ heq => by rw [← heq]⟩
  | data body => exact ⟨rfl, by simp, fun reply _ heq => by rw [← heq]⟩

theorem request_unsendable (hnul : 0 ∉ text) (hbreak : ∃ c ∈ text, c = 10 ∨ c = 13)
    (world : World) (sent : List Bytes) :
    ∃ why, request world sent text = (.error (.unsendable why), sent) := by
  have hline : (text.any fun c => c = 10 || c = 13) = true := by
    obtain ⟨c, hc, hb⟩ := hbreak
    exact List.any_eq_true.mpr ⟨c, hc, by simpa using hb⟩
  refine ⟨"a control command cannot contain a newline", ?_⟩
  simp only [request, cString_of_noNul hnul, hline, if_true]

theorem answered_sent (htext : OneLine text) (hne : text ≠ []) (world : World)
    (sent : List Bytes) (otherwise : String) {session : Session Unit}
    (hsession : session = match request world sent text with
      | (.error why, sent) => (.error why, sent) | (.ok .ok, sent) => (.ok (), sent)
      | (.ok _, sent) => (.error (.answered otherwise), sent)) :
    session.2 = sent ++ [text] ∧ (∀ why, session.1 ≠ .error (.unsendable why)) ∧
      (world (sent ++ [text]) = .ok → session.1 = .ok ()) := by
  obtain ⟨hsent, hnot, hok⟩ := request_sent htext hne world sent
  have hwilling := hok .ok (by simp)
  generalize request world sent text = result at *
  rcases result with ⟨outcome, sent'⟩
  rcases outcome with (why | why) | reply
  · exact absurd rfl (hnot why)
  · subst hsession
    exact ⟨hsent, by simp, fun h => absurd (hwilling h) (by simp)⟩
  · subst hsession
    cases reply with
    | ok => exact ⟨hsent, by simp, fun _ => rfl⟩
    | lost why => exact ⟨hsent, by simp, fun h => absurd (hwilling h) (by simp)⟩
    | fail => exact ⟨hsent, by simp, fun h => absurd (hwilling h) (by simp)⟩
    | data body => exact ⟨hsent, by simp, fun h => absurd (hwilling h) (by simp)⟩

theorem command_sent (htext : OneLine text) (hne : text ≠ []) (world : World) (sent : List Bytes) :
    (command world sent text).2 = sent ++ [text] ∧
      (∀ why, (command world sent text).1 ≠ .error (.unsendable why)) ∧
      (world (sent ++ [text]) = .ok → (command world sent text).1 = .ok ()) :=
  answered_sent htext hne world sent _ rfl

variable {id : ℕ}

theorem decimal_length (h : id < 2 ^ 32) : (decimal id).length ≤ 10 := by
  have hdigits : (decimalDigits id).length ≤ 10 := by
    unfold decimalDigits
    split_ifs
    · decide
    · rw [List.length_reverse]
      exact (Nat.digits_length_le_iff (by decide) id).mpr (h.trans (by decide))
  have hsign : ¬ ((id : ℤ) < 0) := by omega
  simpa [decimal, hsign] using hdigits

theorem commandStart_length (h : isName name = true) (hid : id < 2 ^ 32) :
    (commandStart id name).length ≤ 56 := by
  have hname := (name_plain h).1
  have hdecimal := decimal_length hid
  have hset : (asciis "SET_NETWORK ").length = 12 := rfl
  simp only [commandStart, List.length_append, List.length_cons, List.length_nil, hset]
  omega

theorem settingRedacted_ok (hr : Renders resolver setting h)
    (hid : id < 2 ^ 32) (hfits : (lineFor id h).length ≤ bufLimit) :
    ∃ shown, settingRedacted id setting = .ok shown := by
  have hshort : (commandStart id setting.name ++ if setting.sensitive then asciis "<redacted>" else
      setting.value.getD []).length ≤ bufLimit := by
    cases hsensitive : setting.sensitive with
    | true =>
      have hstart := commandStart_length hr.isName hid
      have hshown : (asciis "<redacted>").length = 10 := rfl
      rw [if_pos rfl, List.length_append, hr.name, hshown, bufLimit]
      omega
    | false =>
      have hvalue := hr.value
      rw [settingValue, hr.shown hsensitive] at hvalue
      rw [if_neg (by simp), Except.ok.inj hvalue, hr.name]
      exact hfits
  exact ⟨_, if_neg (not_lt.mpr hshort)⟩

theorem settingCommand_eq (hr : Renders resolver setting h) (id : ℕ) :
    settingCommand resolver id setting =
      if bufLimit < (lineFor id h).length then
        .error ("the \x60" ++ setting.name ++ "\x60 command is longer than one may be")
      else .ok (lineFor id h) := by
  rw [settingCommand, hr.value, hr.name]
  rfl

theorem lineFor_ne_nil (id : ℕ) (h : Held) : lineFor id h ≠ [] := List.cons_ne_nil _ _

theorem oneLine_lineFor (hr : Renders resolver setting h) (hs : Sendable (lineFor id h)) :
    OneLine (lineFor id h) := fun c hc =>
  ⟨fun hzero => noNul_lineFor hr id (hzero ▸ hc), hs.2 c hc⟩

theorem sendSetting_sent (hr : Renders resolver setting h)
    (hid : id < 2 ^ 32) (hs : Sendable (lineFor id h)) (world : World) (sent : List Bytes) :
    (sendSetting world resolver id sent setting).2 = sent ++ [lineFor id h] ∧
      (∀ why, (sendSetting world resolver id sent setting).1 ≠ .error (.unsendable why)) ∧
      (world (sent ++ [lineFor id h]) = .ok →
        (sendSetting world resolver id sent setting).1 = .ok ()) := by
  obtain ⟨shown, hshown⟩ := settingRedacted_ok hr hid hs.1
  refine answered_sent (oneLine_lineFor hr hs) (lineFor_ne_nil id h) world sent
    "the supplicant did not answer OK" ?_
  have hcommand := settingCommand_eq hr id
  rw [if_neg (not_lt.mpr hs.1)] at hcommand
  rcases hasked : request world sent (lineFor id h) with ⟨why | reply, asked⟩
  · simp only [sendSetting, hshown, hcommand, hasked]
  · cases reply <;> simp only [sendSetting, hshown, hcommand, hasked]

theorem sendSetting_unsendable (hr : Renders resolver setting h)
    (hs : ¬ Sendable (lineFor id h)) (world : World) (sent : List Bytes) :
    ∃ why, sendSetting world resolver id sent setting = (.error (.unsendable why), sent) := by
  unfold sendSetting
  cases settingRedacted id setting with
  | error why => exact ⟨why, rfl⟩
  | ok shown =>
    rw [settingCommand_eq hr]
    by_cases hlong : bufLimit < (lineFor id h).length
    · rw [if_pos hlong]
      exact ⟨_, rfl⟩
    · have hbreak : ∃ c ∈ lineFor id h, c = 10 ∨ c = 13 := by
        by_contra hnone
        push Not at hnone
        exact hs ⟨not_lt.mp hlong, hnone⟩
      obtain ⟨why, hwhy⟩ := request_unsendable (noNul_lineFor hr id) hbreak world sent
      rw [if_neg hlong]
      simp only [hwhy]
      exact ⟨why, rfl⟩

/-- A supplicant that takes everything, and numbers networks at the end of the range. -/
def willing : World := fun sent =>
  if sent.getLast? = some (asciis "ADD_NETWORK") then .data (decimal 4294967295) else .ok

theorem willing_ok (h : text ≠ asciis "ADD_NETWORK") (sent : List Bytes) :
    willing (sent ++ [text]) = .ok := by
  simp [willing, h]

/-- What is sent of some settings : the commands of the first `n`, of which each can be. A network
that fails before its end was refused, or had come to a command that cannot be sent. -/
theorem sendSettings_sent (hr : List.Forall₂ (Renders resolver) settings held) (hid : id < 2 ^ 32)
    (world : World) : ∀ sent : List Bytes, ∃ n ≤ held.length,
    (sendSettings world resolver id sent settings).2 = sent ++ (held.take n).map (lineFor id) ∧
      (∀ h ∈ held.take n, Sendable (lineFor id h)) ∧
      ((sendSettings world resolver id sent settings).1 = .ok () ∧ n = held.length ∨
        (∃ why, (sendSettings world resolver id sent settings).1 = .error (.answered why)) ∧
          world ≠ willing ∨
        (∃ why, (sendSettings world resolver id sent settings).1 = .error (.unsendable why)) ∧
          ∃ h ∈ held, ¬ Sendable (lineFor id h)) := by
  induction hr with
  | nil => exact fun sent => ⟨0, le_rfl, by simp [sendSettings], by simp, .inl ⟨rfl, rfl⟩⟩
  | @cons setting h settings held hr _ ih =>
    intro sent
    by_cases hs : Sendable (lineFor id h)
    · obtain ⟨hsent, hnot, hok⟩ := sendSetting_sent hr hid hs world sent
      have hwilling : world = willing →
          (sendSetting world resolver id sent setting).1 = .ok () := by
        rintro rfl
        refine hok (willing_ok (fun heq => ?_) sent)
        have hhead : some (ascii 'S') = some (ascii 'A') := congrArg List.head? heq
        exact absurd hhead (by decide)
      simp only [sendSettings]
      generalize sendSetting world resolver id sent setting = result at *
      rcases result with ⟨outcome, sent'⟩
      obtain rfl : sent' = sent ++ [lineFor id h] := hsent
      rcases outcome with (why | why) | ⟨⟩
      · exact absurd rfl (hnot why)
      · refine ⟨1, Nat.le_add_left _ _, by simp, by simpa using hs,
          .inr (.inl ⟨⟨why, rfl⟩, fun heq => absurd (hwilling heq) (by simp)⟩)⟩
      · obtain ⟨n, hn, hmore, hall, hcase⟩ := ih (sent ++ [lineFor id h])
        refine ⟨n + 1, Nat.succ_le_succ hn, by simpa using hmore, ?_, ?_⟩
        · intro other hother
          rw [List.take_succ_cons] at hother
          rcases List.mem_cons.mp hother with rfl | hother
          · exact hs
          · exact hall other hother
        · rcases hcase with ⟨hdone, hlength⟩ | hanswered | ⟨hwhy, other, hother, hbad⟩
          · exact .inl ⟨hdone, by simp [hlength]⟩
          · exact .inr (.inl hanswered)
          · exact .inr (.inr ⟨hwhy, other, List.mem_cons_of_mem _ hother, hbad⟩)
    · obtain ⟨why, hwhy⟩ := sendSetting_unsendable hr hs world sent
      simp only [sendSettings, hwhy]
      exact ⟨0, Nat.zero_le _, by simp, by simp,
        .inr (.inr ⟨⟨why, rfl⟩, h, List.mem_cons_self .., hs⟩)⟩

/-! ## A whole network -/

theorem isSet_numbered (id : ℕ) : isSet (asciis "REMOVE_NETWORK " ++ decimal id) = false := rfl

theorem lastCommand_mem (joining : Joining ρ σ) :
    joining.lastCommand ∈ ["ENABLE_NETWORK ", "DISABLE_NETWORK ", "SELECT_NETWORK "] := by
  cases joining with
  | network wifi resolvedSsid macPolicy =>
    rw [Joining.lastCommand]
    cases wifi.autoconnect <;> decide
  | wired eap => exact List.mem_cons_self ..
  | mesh point => exact List.mem_cons_of_mem _ (List.mem_cons_of_mem _ (List.mem_cons_self ..))

theorem isSet_lastCommand (joining : Joining ρ σ) (id : ℕ) :
    isSet (asciis joining.lastCommand ++ decimal id) = false := by
  have hmem := lastCommand_mem joining
  simp only [List.mem_cons, List.not_mem_nil, or_false] at hmem
  rcases hmem with heq | heq | heq
  · rw [heq]; rfl
  · rw [heq]; rfl
  · rw [heq]; rfl

theorem oneLine_lastCommand (joining : Joining ρ σ) : OneLine (asciis joining.lastCommand) := by
  have hall : ∀ text ∈ ["ENABLE_NETWORK ", "DISABLE_NETWORK ", "SELECT_NETWORK "],
      OneLine (asciis text) := by decide
  exact hall _ (lastCommand_mem joining)

theorem networkId_lt {body : Bytes} (h : networkId body = some id) : id < 2 ^ 32 := by
  unfold networkId at h
  dsimp only at h
  split_ifs at h with hbad
  push Not at hbad
  exact Option.some.inj h ▸ hbad.2.1

theorem append_decimal_ne_nil (text : Bytes) (id : ℕ) : text ++ decimal id ≠ [] := by
  intro h
  have hnil : decimal id = [] := (List.append_eq_nil_iff.mp h).2
  have hdigits := (List.map_eq_nil_iff.mp (List.append_eq_nil_iff.mp hnil).2)
  unfold decimalDigits at hdigits
  split_ifs at hdigits with hzero
  rw [List.reverse_eq_nil_iff, Nat.digits_eq_nil_iff_eq_zero] at hdigits
  exact hzero hdigits

theorem newNetworkId_sent (world : World) (sent : List Bytes) :
    (newNetworkId world sent).2 = sent ++ [asciis "ADD_NETWORK"] ∧
      ((∃ why, (newNetworkId world sent).1 = .error (.answered why)) ∧ world ≠ willing ∨
        ∃ id < 2 ^ 32, (newNetworkId world sent).1 = .ok id ∧
          (world = willing → id = 4294967295)) := by
  obtain ⟨hsent, hnot, hok⟩ := @request_sent (asciis "ADD_NETWORK") (by decide) (by decide)
    world sent
  have hwilling : world = willing →
      (request world sent (asciis "ADD_NETWORK")).1 = .ok (.data (decimal 4294967295)) := by
    rintro rfl
    exact hok _ (by simp) (by simp [willing])
  unfold newNetworkId
  generalize request world sent (asciis "ADD_NETWORK") = result at *
  rcases result with ⟨outcome, sent'⟩
  rcases outcome with (why | why) | (why | _ | _ | body)
  · exact absurd rfl (hnot why)
  · exact ⟨hsent, .inl ⟨⟨why, rfl⟩, fun heq => absurd (hwilling heq) (by simp)⟩⟩
  · exact ⟨hsent, .inl ⟨⟨_, rfl⟩, fun heq => absurd (hwilling heq) (by simp)⟩⟩
  · exact ⟨hsent, .inl ⟨⟨_, rfl⟩, fun heq => absurd (hwilling heq) (by simp)⟩⟩
  · exact ⟨hsent, .inl ⟨⟨_, rfl⟩, fun heq => absurd (hwilling heq) (by simp)⟩⟩
  · have hbody : world = willing → body = decimal 4294967295 := fun heq => by
      simpa using hwilling heq
    dsimp only
    cases hid : networkId body with
    | none =>
      refine ⟨hsent, .inl ⟨⟨_, rfl⟩, fun heq => ?_⟩⟩
      rw [hbody heq] at hid
      exact absurd hid (by decide)
    | some id =>
      refine ⟨hsent, .inr ⟨id, networkId_lt hid, rfl, fun heq => ?_⟩⟩
      have hwhole : networkId (decimal 4294967295) = some 4294967295 := by decide
      rw [hbody heq, hwhole] at hid
      exact (Option.some.inj hid).symm

/-- What a session of a network has sent after what was sent before it : the network is added, the
commands of the first `n` settings are sent, and then nothing that gives a variable. It cannot be
sent for a command that cannot be, and a willing supplicant is given everything else. -/
def Handed (world : World) (held : List Held) (sent : List Bytes) (session : Session ℕ) : Prop :=
  ∃ id < 2 ^ 32, ∃ n ≤ held.length, ∃ rest : List Bytes,
    session.2 = sent ++ asciis "ADD_NETWORK" :: ((held.take n).map (lineFor id) ++ rest) ∧
      (∀ text ∈ rest, isSet text = false) ∧ (∀ h ∈ held.take n, Sendable (lineFor id h)) ∧
      ((∃ why, session.1 = .error (.unsendable why)) → ∃ h ∈ held, ¬ Sendable (lineFor id h)) ∧
      (world = willing → id = 4294967295 ∧
        ((∃ why, session.1 = .error (.unsendable why)) ∨ n = held.length))

variable {joining : Joining ρ σ}

theorem handOver_handed
    (hsettings : joining.settings resolver = .ok settings) (world : World) (sent : List Bytes) :
    Handed world (joining.held resolver) sent (joining.handOver world resolver sent) := by
  obtain ⟨hadded, hnumber⟩ := newNetworkId_sent world sent
  unfold Joining.handOver populate
  rw [hsettings]
  dsimp only
  generalize newNetworkId world sent = number at *
  rcases number with ⟨outcome, added⟩
  obtain rfl : added = sent ++ [asciis "ADD_NETWORK"] := hadded
  rcases hnumber with ⟨⟨why, rfl⟩, hworld⟩ | ⟨id, hid, rfl, hlast⟩
  · exact ⟨0, by decide, 0, Nat.zero_le _, [], by simp, by simp, by simp, by simp,
      fun heq => absurd heq hworld⟩
  · dsimp only
    obtain ⟨n, hn, hmore, hall, hcase⟩ := sendSettings_sent
      (joining.settings_held settings hsettings) hid world (sent ++ [asciis "ADD_NETWORK"])
    generalize sendSettings world resolver id (sent ++ [asciis "ADD_NETWORK"]) settings = result
      at *
    rcases result with ⟨outcome, more⟩
    obtain rfl : more = _ := hmore
    have hremove := (@command_sent (asciis "REMOVE_NETWORK " ++ decimal id)
      (oneLine_append (by decide) (oneLine_decimal id)) (append_decimal_ne_nil _ id) world
      (sent ++ [asciis "ADD_NETWORK"] ++ (joining.held resolver |>.take n).map (lineFor id))).1
    rcases hcase with ⟨rfl, rfl⟩ | ⟨⟨why, rfl⟩, hworld⟩ | ⟨⟨why, rfl⟩, hbad⟩
    · obtain ⟨hput, hnot, -⟩ := command_sent
        (oneLine_append (oneLine_lastCommand joining) (oneLine_decimal id))
        (append_decimal_ne_nil _ id) world
        (sent ++ [asciis "ADD_NETWORK"] ++
          ((joining.held resolver).take (joining.held resolver).length).map (lineFor id))
      dsimp only
      generalize command world _ (asciis joining.lastCommand ++ decimal id) = put at *
      rcases put with ⟨putOutcome, putSent⟩
      obtain rfl : putSent = _ := hput
      refine ⟨id, hid, _, le_rfl, [asciis joining.lastCommand ++ decimal id], ?_, ?_, hall, ?_,
        fun heq => ⟨hlast heq, .inr rfl⟩⟩
      · rcases putOutcome with why | ⟨⟩ <;> simp
      · simpa using isSet_lastCommand joining id
      · rintro ⟨why, hwhy⟩
        rcases putOutcome with why' | ⟨⟩
        · exact absurd (by simpa using hwhy) (hnot why)
        · cases hwhy
    · exact ⟨id, hid, n, hn, [asciis "REMOVE_NETWORK " ++ decimal id],
        by simpa using hremove, by simpa using isSet_numbered id, hall, by simp,
        fun heq => absurd heq hworld⟩
    · exact ⟨id, hid, n, hn, [asciis "REMOVE_NETWORK " ++ decimal id],
        by simpa using hremove, by simpa using isSet_numbered id, hall, fun _ => hbad,
        fun heq => ⟨hlast heq, .inl ⟨why, rfl⟩⟩⟩

/-! ## What is read of a command -/

theorem takeWhile_until {rest : Bytes} {sep : UInt8} (h : ∀ c ∈ a, c ≠ sep) :
    (a ++ sep :: rest).takeWhile (· ≠ sep) = a := by
  rw [List.takeWhile_append_of_pos fun c hc => by simpa using h c hc]
  simp

theorem dropWhile_until {rest : Bytes} {sep : UInt8} (h : ∀ c ∈ a, c ≠ sep) :
    (a ++ sep :: rest).dropWhile (· ≠ sep) = sep :: rest := by
  rw [List.dropWhile_append_of_pos fun c hc => by simpa using h c hc]
  simp

theorem isSet_lineFor (id : ℕ) (h : Held) : isSet (lineFor id h) = true := rfl

theorem heard_lineFor (hname : isName h.name = true) (id : ℕ) :
    heard (lineFor id h) = (asciis h.name, h.value.rendered) := by
  have hspace : ∀ c ∈ asciis h.name, c ≠ ascii ' ' := fun c hc => ((name_plain hname).2 c hc).2.2.2
  have hnumber : ∀ c ∈ decimal (id : ℤ), c ≠ ascii ' ' := fun c hc =>
    (decimal_plain id c hc).2.2.2.1
  have hline : (lineFor id h).drop 12 =
      decimal id ++ ascii ' ' :: (asciis h.name ++ ascii ' ' :: h.value.rendered) := by
    have hset : (asciis "SET_NETWORK ").length = 12 := rfl
    rw [lineFor, commandStart, ← hset, List.append_assoc, List.append_assoc, List.drop_left]
    simp
  simp only [heard, hline, dropWhile_until hnumber, List.drop_succ_cons, List.drop_zero,
    takeWhile_until hspace, dropWhile_until hspace]

theorem quotedValue_rendered (bytes : Bytes) :
    quotedValue (Value.text bytes).rendered = some (bytes.flatMap quoteByte) := by
  simp [quotedValue, Value.rendered]

theorem hexBytes_rendered (bytes : Bytes) :
    hexBytes (Value.hex bytes).rendered = some bytes := by
  induction bytes with
  | nil => rfl
  | cons c bytes ih =>
    have hhigh := hexValue_hexDigit (Nat.div_lt_of_lt_mul c.toNat_lt : c.toNat / 16 < 16)
    have hlow := hexValue_hexDigit (Nat.mod_lt c.toNat (by decide) : c.toNat % 16 < 16)
    rw [Value.rendered] at ih ⊢
    rw [List.flatMap_cons]
    simp only [List.cons_append, List.nil_append, hexBytes, hhigh, hlow, ih]
    rw [mul_comm, Nat.div_add_mod]
    simp

theorem length_quoteByte (c : UInt8) : 1 ≤ (quoteByte c).length := by
  unfold quoteByte
  split_ifs <;> simp

theorem length_flatMap_quoteByte (bytes : Bytes) :
    bytes.length ≤ (bytes.flatMap quoteByte).length := by
  induction bytes with
  | nil => exact le_rfl
  | cons c bytes ih =>
    rw [List.flatMap_cons, List.length_append, List.length_cons]
    have := length_quoteByte c
    omega

theorem plain_of_flatMap_quoteByte (h : bytes.flatMap quoteByte = bytes) :
    ∀ c ∈ bytes, c ≠ ascii '"' ∧ c ≠ ascii '\\' := by
  induction bytes with
  | nil => exact fun c hc => absurd hc List.not_mem_nil
  | cons c bytes ih =>
    rw [List.flatMap_cons, quoteByte] at h
    split_ifs at h with hspecial
    · have hlength := congrArg List.length h
      have hmore := length_flatMap_quoteByte bytes
      simp only [List.length_append, List.length_cons, List.length_nil] at hlength
      omega
    · have hrest : bytes.flatMap quoteByte = bytes := List.cons.inj h |>.2
      intro d hd
      rcases List.mem_cons.mp hd with rfl | hd
      · exact not_or.mp hspecial
      · exact ih hrest d hd

/-! ## When it is carried -/

theorem oneLine_rendered (hp : h.Plain) (hsound : h.value.Sound) :
    OneLine h.value.rendered := by
  rcases h with ⟨name, bytes | bytes | bytes⟩
  · exact hsound
  · intro c hc
    simp only [Value.rendered, List.mem_flatMap, List.mem_cons, List.not_mem_nil, or_false] at hc
    have hdigit {n : ℕ} (hn : n < 16) : hexDigit n ≠ 0 ∧ hexDigit n ≠ 10 ∧ hexDigit n ≠ 13 := by
      interval_cases n <;> decide
    obtain ⟨d, -, rfl | rfl⟩ := hc
    · exact hdigit (Nat.div_lt_of_lt_mul d.toNat_lt)
    · exact hdigit (Nat.mod_lt _ (by decide))
  · have hquote : OneLine [ascii '"'] := by decide
    have hplain := hp.text bytes rfl
    rw [Value.rendered, flatMap_quoteByte fun c hc => (hplain c hc).1]
    refine oneLine_append hquote (oneLine_append (fun c hc => ⟨?_, (hplain c hc).2⟩) hquote)
    exact fun hzero => hsound (hzero ▸ hc)

theorem lineFor_length_mono (hid : id < 2 ^ 32) (h : Held) :
    (lineFor id h).length ≤ (lineFor 4294967295 h).length := by
  have hlength := decimal_length hid
  have hmost : (decimal ((4294967295 : ℕ) : ℤ)).length = 10 := by decide
  simp only [lineFor, commandStart, List.length_append, List.length_cons, hmost]
  omega

theorem sendable_of_plain (hr : Renders resolver setting h) (hp : h.Plain) (hid : id < 2 ^ 32) :
    Sendable (lineFor id h) :=
  ⟨(lineFor_length_mono hid h).trans hp.fits, fun c hc =>
    (oneLine_append (oneLine_commandStart hr.isName id) (oneLine_rendered hp hr.sound) c hc).2⟩

theorem gives_of_plain (hr : Renders resolver setting h) (hp : h.Plain) (id : ℕ) :
    Gives (lineFor id h) h := by
  rw [Gives, heard_lineFor hr.isName]
  refine ⟨rfl, ?_⟩
  rcases h with ⟨name, bytes | bytes | bytes⟩
  · rfl
  · exact hexBytes_rendered bytes
  · have hquoted := quotedValue_rendered bytes
    rwa [flatMap_quoteByte fun c hc => (hp.text bytes rfl c hc).1] at hquoted

theorem plain_of_gives (hr : Renders resolver setting h)
    (hs : Sendable (lineFor 4294967295 h)) (hg : Gives (lineFor 4294967295 h) h) : h.Plain := by
  rw [Gives, heard_lineFor hr.isName] at hg
  refine ⟨fun bytes hvalue c hc => ?_, hs.1⟩
  have hread := hg.2
  rw [hvalue] at hread
  have hsame := Option.some.inj ((quotedValue_rendered bytes).symm.trans hread)
  refine ⟨plain_of_flatMap_quoteByte hsame c hc, hs.2 c ?_⟩
  rw [lineFor, hvalue, Value.rendered, hsame]
  simp [hc]

theorem exists_setting (hall : List.Forall₂ (Renders resolver) settings held) (hh : h ∈ held) :
    ∃ setting, Renders resolver setting h := by
  induction hall with
  | nil => cases hh
  | cons hr _ ih =>
    rcases List.mem_cons.mp hh with rfl | hh
    · exact ⟨_, hr⟩
    · exact ih hh

theorem filter_isSet {sent rest : List Bytes} (hsent : ∀ text ∈ sent, isSet text = false)
    (hrest : ∀ text ∈ rest, isSet text = false) (held : List Held) (id : ℕ) :
    (sent ++ asciis "ADD_NETWORK" :: (held.map (lineFor id) ++ rest)).filter isSet =
      held.map (lineFor id) := by
  have hadd : isSet (asciis "ADD_NETWORK") = false := rfl
  have hlines : (held.map (lineFor id)).filter isSet = held.map (lineFor id) := by
    rw [List.filter_eq_self]
    intro line hline
    obtain ⟨h, -, rfl⟩ := List.mem_map.mp hline
    exact isSet_lineFor id h
  rw [List.filter_append, List.filter_eq_nil_iff.mpr (by simpa using hsent),
    List.filter_cons_of_neg (by simp [hadd]), List.filter_append, hlines,
    List.filter_eq_nil_iff.mpr (by simpa using hrest), List.append_nil, List.nil_append]

theorem Handed.carried {world : World} {sent : List Bytes}
    {session : Session ℕ} (hh : Handed world held sent session)
    (hrenders : ∀ h ∈ held, ∃ setting : Setting ρ, Renders resolver setting h)
    (hsent : ∀ text ∈ sent, isSet text = false) (hplain : ∀ h ∈ held, h.Plain) :
    (∀ line ∈ session.2, isSet line → 0 ∉ line ∧ 10 ∉ line) ∧
      (∀ (k : ℕ) (line : Bytes), (session.2.filter isSet)[k]? = some line →
        ∃ h, held[k]? = some h ∧ Gives line h) ∧
      ∀ why, session.1 ≠ .error (.unsendable why) := by
  obtain ⟨id, hid, n, hn, rest, hall, hrest, -, hwhy, -⟩ := hh
  have hfilter : session.2.filter isSet = (held.take n).map (lineFor id) := by
    rw [hall, filter_isSet hsent hrest]
  refine ⟨fun line hline hset => ?_, fun k line hk => ?_, fun why heq => ?_⟩
  · have hmem : line ∈ session.2.filter isSet := List.mem_filter.mpr ⟨hline, hset⟩
    rw [hfilter] at hmem
    obtain ⟨h, hh, rfl⟩ := List.mem_map.mp hmem
    obtain ⟨setting, hr⟩ := hrenders h (List.mem_of_mem_take hh)
    have hs := sendable_of_plain hr (hplain h (List.mem_of_mem_take hh)) hid
    exact ⟨noNul_lineFor hr id, fun hbreak => (hs.2 10 hbreak).1 rfl⟩
  · rw [hfilter, List.getElem?_map] at hk
    obtain ⟨h, hh, rfl⟩ := Option.map_eq_some_iff.mp hk
    have hheld : held[k]? = some h := by
      rw [List.getElem?_take] at hh
      split_ifs at hh
      exact hh
    have hmem := List.mem_of_getElem? hheld
    obtain ⟨setting, hr⟩ := hrenders h hmem
    exact ⟨h, hheld, gives_of_plain hr (hplain h hmem) id⟩
  · obtain ⟨h, hh, hbad⟩ := hwhy ⟨why, heq⟩
    obtain ⟨setting, hr⟩ := hrenders h hh
    exact hbad (sendable_of_plain hr (hplain h hh) hid)

theorem clear_sent (world : World) :
    (command world [] (asciis "REMOVE_NETWORK all")).2 = [asciis "REMOVE_NETWORK all"] ∧
      ∀ why, (command world [] (asciis "REMOVE_NETWORK all")).1 ≠ .error (.unsendable why) :=
  have h := @command_sent (asciis "REMOVE_NETWORK all") (by decide) (by decide) world []
  ⟨h.1, h.2.1⟩

theorem configure_cases (joining : Joining ρ σ) (world : World) :
    ∃ sent : List Bytes, (∀ text ∈ sent, text = asciis "REMOVE_NETWORK all") ∧
      (joining.configure world resolver = joining.handOver world resolver sent ∨
        world ≠ willing ∧ (joining.configure world resolver).2 = sent ∧
          ∀ why, (joining.configure world resolver).1 ≠ .error (.unsendable why)) := by
  unfold Joining.configure
  cases joining.clears with
  | false => exact ⟨[], by simp, .inl rfl⟩
  | true =>
    have hwilling : world = willing →
        (command world [] (asciis "REMOVE_NETWORK all")).1 = .ok () := by
      rintro rfl
      exact (@command_sent (asciis "REMOVE_NETWORK all") (by decide) (by decide) willing
        []).2.2 (willing_ok (by decide) [])
    obtain ⟨hsent, hnot⟩ := clear_sent world
    refine ⟨[asciis "REMOVE_NETWORK all"], by simp, ?_⟩
    generalize command world [] (asciis "REMOVE_NETWORK all") = cleared at *
    rcases cleared with ⟨outcome, sent⟩
    obtain rfl : sent = _ := hsent
    rcases outcome with why | ⟨⟩
    · refine .inr ⟨fun heq => absurd (hwilling heq) (by simp), rfl, fun why' heq => hnot why' ?_⟩
      simpa using heq
    · exact .inl rfl

theorem not_isSet_clear {sent : List Bytes}
    (h : ∀ text ∈ sent, text = asciis "REMOVE_NETWORK all") : ∀ text ∈ sent, isSet text = false :=
      fun text htext => by
  rw [h text htext]
  rfl

theorem carried_of_cleared {world : World} {sent : List Bytes}
    (hsent : ∀ text ∈ sent, text = asciis "REMOVE_NETWORK all")
    (h : (joining.configure world resolver).2 = sent) : Carried world resolver joining where
  lines := fun line hline hset => by
    rw [h] at hline
    rw [not_isSet_clear hsent line hline] at hset
    cases hset
  read := fun k line hk => by
    rw [h, List.filter_eq_nil_iff.mpr (by simpa using not_isSet_clear hsent)] at hk
    cases hk
  refused := fun _ _ text htext => hsent text (h ▸ htext)

/-- Plain settings are carried, by any supplicant. -/
theorem carried_of_plain (hsettings : joining.settings resolver = .ok settings)
    (hplain : ∀ h ∈ joining.held resolver, h.Plain) (world : World) :
    Carried world resolver joining := by
  obtain ⟨sent, hsent, hover | ⟨-, hcleared, -⟩⟩ := @configure_cases ρ σ resolver joining
    world
  · have hrenders : ∀ h ∈ joining.held resolver, ∃ setting : Setting ρ,
        Renders resolver setting h :=
      fun h hh => exists_setting (joining.settings_held settings hsettings) hh
    obtain ⟨hlines, hread, hnot⟩ := (handOver_handed hsettings world sent).carried hrenders
      (not_isSet_clear hsent) hplain
    rw [← hover] at hlines hread hnot
    exact ⟨hlines, hread, fun why heq => absurd heq (hnot why)⟩
  · exact carried_of_cleared hsent hcleared

/-- What a willing supplicant carries is plain. -/
theorem plain_of_carried (hsettings : joining.settings resolver = .ok settings)
    (hcarried : Carried willing resolver joining) : ∀ h ∈ joining.held resolver, h.Plain := by
  obtain ⟨sent, hsent, hover | ⟨hnot, -⟩⟩ := @configure_cases ρ σ resolver joining willing
  · have hhanded := handOver_handed hsettings willing sent
    rw [← hover] at hhanded
    obtain ⟨id, -, n, -, rest, hall, hrest, hsendable, -, hend⟩ := hhanded
    obtain ⟨rfl, hlast⟩ := hend rfl
    rcases hlast with ⟨why, hwhy⟩ | rfl
    · have hadd := hcarried.refused why hwhy (asciis "ADD_NETWORK") (by simp [hall])
      exact absurd hadd (by decide)
    · intro h hh
      rw [List.take_length] at hall hsendable
      obtain ⟨setting, hr⟩ := exists_setting (joining.settings_held settings hsettings) hh
      obtain ⟨k, hk⟩ := List.getElem?_of_mem hh
      obtain ⟨h', hh', hgives⟩ := hcarried.read k (lineFor 4294967295 h) (by
        rw [hall, filter_isSet (not_isSet_clear hsent) hrest, List.getElem?_map, hk]
        rfl)
      obtain rfl := Option.some.inj (hk.symm.trans hh')
      exact plain_of_gives hr (hsendable h hh) hgives
  · exact absurd rfl hnot

/-- A joining that is refused carries nothing wrong. -/
theorem carried_of_refused {why : String}
    (hsettings : joining.settings resolver = .error why) (world : World) :
    Carried world resolver joining := by
  obtain ⟨sent, hsent, hover | ⟨-, hcleared, -⟩⟩ := @configure_cases ρ σ resolver joining
    world
  · refine carried_of_cleared hsent ?_
    rw [hover, Joining.handOver, hsettings]
  · exact carried_of_cleared hsent hcleared

end Renders

/-- The supplicant receives what is held, whatever it answers, exactly when it cannot be rendered or
all of it is plain. -/
theorem carried_iff {ρ σ : Type} (resolver : Resolver ρ σ) (joining : Joining ρ σ) :
    (∀ world, Carried world resolver joining) ↔
      (∃ why, joining.settings resolver = .error why) ∨
        ∀ h ∈ joining.held resolver, h.Plain := by
  constructor
  · intro hcarried
    cases hsettings : joining.settings resolver with
    | error why => exact .inl ⟨why, rfl⟩
    | ok settings => exact .inr (plain_of_carried hsettings (hcarried willing))
  · rintro (⟨why, hsettings⟩ | hplain) world
    · exact carried_of_refused hsettings world
    · cases hsettings : joining.settings resolver with
      | error why => exact carried_of_refused hsettings world
      | ok settings => exact carried_of_plain hsettings hplain world

def literal : Resolver Bytes Str where
  resolve := .ok
  pathFor := fun path _ => .ok path

def quotedPassphrase : Joining Bytes Str :=
  .network
    { ssid := some (asciis "home"), hidden := false, bssid := [], roam := none, metric := none,
      security := .psk ⟨.wpa2, asciis "pass\"word"⟩, autoconnect := true } none .permanent

/-- Its passphrase is sent with a backslash, and read with one. -/
theorem quoted_passphrase_differs : ¬ ∀ world, Carried world literal quotedPassphrase := by
  intro hcarried
  obtain ⟨h, hheld, hgives⟩ := (hcarried willing).read 2
    (asciis "SET_NETWORK 4294967295 psk \"pass\\\"word\"") (by decide +kernel)
  obtain rfl : ⟨"psk", .text (asciis "pass\"word")⟩ = h := Option.some.inj hheld
  have hread : quotedValue (asciis "\"pass\\\"word\"") = some (asciis "pass\"word") := hgives.2
  exact absurd hread (by decide +kernel)

end Netcfgd.Supplicant
