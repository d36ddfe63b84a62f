import Netcfgd.Privilege
import Netcfgd.Lower

/-!
# What the privilege gate covers

A text that compiles and in which `privilegeFindings` finds nothing should compile to a
document that grants nothing beyond configuring a network (`Grants.Unprivileged`), and hold no
include (`GateCovers`). The gate and the lowering read the same tree by different names : the
gate goes by the head of the innermost block and a table, the lowering by the path that leads
to a field.

Here is what the gate covers whatever the text : each block of the lowering in turn, the
merge, and the document (`Grants.Covered`, `covered_of_findings`). A certificate of a `dot1x`
block, the owner of a `tap` and the `agent` are not among it, and `PrivilegeGap.lean` says
what follows.
-/

namespace Netcfgd.Compile

/-! ## What a document grants -/

def Eap.certs (e : Eap) : List CertSource :=
  e.caCert.toList ++ e.clientCert.toList ++ e.privateKey.toList

def CertSource.secrets : CertSource → List SecretRef
  | .stored secret => [secret]
  | .path _ => []

def Eap.secrets (e : Eap) : List SecretRef :=
  e.password.toList ++ e.certs.flatMap CertSource.secrets

def Security.secrets : Security → List SecretRef
  | .psk passphrase _ => [passphrase]
  | .eap config => config.secrets
  | _ => []

def Security.eaps : Security → List Eap
  | .eap config => [config]
  | _ => []

def Kind.secrets : Kind → List SecretRef
  | .wireguard privateKey presharedKeys => privateKey :: presharedKeys
  | .pppoe password => [password]
  | .openvpn _ password => password.toList
  | _ => []

def Grants.hooks (d : Grants) : List Hook :=
  d.interfaces.flatMap Interface.hooks ++ d.networks.flatMap Network.hooks

def Grants.securities (d : Grants) : List Security :=
  d.networks.filterMap Network.security ++ d.accessPoints.filterMap Station.security ++
    d.meshes.filterMap Station.security

/-- Every EAP of a document, of a network's `wifi` or of an interface's `dot1x`. -/
def Grants.eaps (d : Grants) : List Eap :=
  d.securities.flatMap Security.eaps ++ d.interfaces.filterMap Interface.dot1x

def Grants.secrets (d : Grants) : List SecretRef :=
  d.devices.flatMap Kind.secrets ++ d.securities.flatMap Security.secrets ++
    (d.interfaces.filterMap Interface.dot1x).flatMap Eap.secrets ++
    (d.accessPoints ++ d.meshes).filterMap Station.roamingKey

/-- A document that grants nothing beyond configuring a network. -/
structure Grants.Unprivileged (d : Grants) : Prop where
  noHook : d.hooks = []
  noProbe : ∀ i ∈ d.interfaces, i.probe = none
  noExec : ∀ s ∈ d.secrets, s.provider ≠ .exec
  noPath : ∀ e ∈ d.eaps, ∀ file, .path file ∉ e.certs
  noForeignConfig : ∀ config password, .openvpn config password ∉ d.devices
  noOwner : ∀ tap owner group, .tun tap owner group ∈ d.devices → owner = none ∧ group = none
  noPolicy : d.policy = {}

mutual

def Item.includes : Item → Bool
  | .incl _ => true
  | .block _ _ _ items => includesAny items
  | _ => false

def includesAny : List Item → Bool
  | [] => false
  | i :: is => i.includes || includesAny is

end

/-- What the gate promises of a text : where it compiles and nothing is found, nothing is
granted and nothing is included. -/
def GateCovers (file : List Item) : Prop :=
  ∀ d, compile file = .ok d → privilegeFindings file = [] →
    d.Unprivileged ∧ includesAny file = false

/-! ## One assignment -/

theorem exec_eq_of_take {word : List Char} (h : String.ofList (word.take 31) = "exec") :
    word = "exec".toList := by
  have ht : word.take 31 = "exec".toList := by rw [← h, String.toList_ofList]
  have hlen : (word.take 31).length = 4 := by rw [ht]; rfl
  rw [List.length_take] at hlen
  rw [← ht, List.take_of_length_le (by omega)]

theorem exec_of_secretProvider {rest name : List Char}
    (h : secretProvider rest = .ok (.exec, name)) : "exec:".toList <+: rest := by
  unfold secretProvider at h
  split at h
  case h_1 => simp at h
  case h_2 c tail hdrop =>
    have hsplit := List.takeWhile_append_dropWhile (p := (· ≠ ':')) (l := rest)
    have hc : c = ':' := by
      have hhead := List.head?_dropWhile_not (· ≠ ':') rest
      rw [hdrop] at hhead
      simpa using hhead
    dsimp only at h
    split_ifs at h with h1 h2 <;> simp at h
    have hword := exec_eq_of_take h2
    refine ⟨tail, ?_⟩
    rw [hdrop, hc, hword] at hsplit
    simpa using hsplit

theorem secretExec_of_asSecret {v : Value} {s : SecretRef} (h : asSecret v = .ok s)
    (hv : secretExec v = false) : s.provider ≠ .exec := by
  intro hexec
  cases v with
  | string t =>
    simp only [asSecret, asString] at h
    split_ifs at h with hsec
    split at h
    · cases h
    case h_2 provider name hp =>
      split_ifs at h
      cases h
      dsimp only at hexec
      subst hexec
      obtain ⟨tail, htail⟩ := exec_of_secretProvider hp
      obtain ⟨rest, hrest⟩ := List.isPrefixOf_iff_prefix.1 hsec
      have htext : (String.ofList (cText t)).toList = cText t := String.toList_ofList
      rw [htext] at htail hrest
      have hrest' : rest = "exec:".toList ++ tail := by
        rw [htail, ← hrest]
        rfl
      have hpre : "@secret:exec:".toList <+: cText t := ⟨tail, by rw [← hrest, hrest']; rfl⟩
      rw [secretExec, List.isPrefixOf_iff_prefix.2 (hpre.trans (List.takeWhile_prefix _))] at hv
      cases hv
  | number n => simp [asSecret, asString] at h
  | boolean b => simp [asSecret, asString] at h
  | list l => simp [asSecret, asString] at h

theorem asCertSource_cases {v : Value} {c : CertSource} (h : asCertSource v = .ok c) :
    (∃ s, c = .stored s ∧ asSecret v = .ok s ∧ certIsAPath v = false) ∨
      (∃ file, c = .path file) ∧ certIsAPath v = true := by
  cases v with
  | string t =>
    rw [asCertSource] at h
    split_ifs at h with hsec
    · cases hs : asSecret (.string t) with
      | error why => simp [hs, Except.map] at h
      | ok s =>
        rw [hs] at h
        cases h
        exact .inl ⟨s, rfl, rfl, by rw [certIsAPath, Value.startsWith, hsec]; rfl⟩
    · cases h
      exact .inr ⟨⟨_, rfl⟩, by rw [certIsAPath, Value.startsWith, eq_false_of_ne_true hsec]; rfl⟩
  | number n => simp [asCertSource, asString, Except.map] at h
  | boolean b => simp [asCertSource, asString, Except.map] at h
  | list l => simp [asCertSource, asString, Except.map] at h

theorem key_found {block key : String} {v : Value} (reason : PrivilegeReason)
    (hr : assignmentReason block key = some reason) (hne : reason ≠ .path) :
    walkItem block (.assignment key v) ≠ [] :=
  fun h => hne (assignmentReason_of_walkItem h hr).1

/-! ## Wifi and dot1x -/

def certKeys : List String := ["ca_cert", "client_cert", "private_key"]

/-- What the keys hold so far : no `exec` secret, and certificates of which `ok` holds. -/
structure WifiKeys.Clean (ok : CertSource → Prop) (k : WifiKeys) : Prop where
  psk : ∀ s ∈ k.psk, s.provider ≠ .exec
  password : ∀ s ∈ k.password, s.provider ≠ .exec
  caCert : ∀ c ∈ k.caCert, ok c
  clientCert : ∀ c ∈ k.clientCert, ok c
  privateKey : ∀ c ∈ k.privateKey, ok c

theorem wifiKey_clean {ok : CertSource → Prop} {k : WifiKeys} {key : String} {v : Value}
    (hk : k.Clean ok) (hs : secretExec v = false)
    (hc : key ∈ certKeys → ∀ c, asCertSource v = .ok c → ok c) :
    (wifiKey k key v).1.Clean ok := by
  have hsecret : ∀ s, asSecret v = .ok s → ∀ t ∈ some s, t.provider ≠ SecretProvider.exec := by
    intro s h t ht
    obtain rfl := Option.mem_some_iff.1 ht
    exact secretExec_of_asSecret h hs
  have hcert : key ∈ certKeys → ∀ c, asCertSource v = .ok c → ∀ t ∈ some c, ok t := by
    intro hkey c h t ht
    obtain rfl := Option.mem_some_iff.1 ht
    exact hc hkey c h
  unfold wifiKey
  refine ite_invariant (P := WifiKeys.Clean ok) (fun _ => ?_) fun _ => ?_
  · exact take_invariant (P := WifiKeys.Clean ok) hk fun s h => { hk with psk := hsecret s h }
  refine ite_invariant (P := WifiKeys.Clean ok) (fun _ => ?_) fun _ => ?_
  · exact take_invariant (P := WifiKeys.Clean ok) hk fun s h => { hk with password := hsecret s h }
  refine ite_invariant (P := WifiKeys.Clean ok) (fun hkey => ?_) fun _ => ?_
  · exact take_invariant (P := WifiKeys.Clean ok) hk fun c h =>
      { hk with privateKey := hcert (by simp [hkey, certKeys]) c h }
  refine ite_invariant (P := WifiKeys.Clean ok) (fun hkey => ?_) fun _ => ?_
  · exact take_invariant (P := WifiKeys.Clean ok) hk fun c h =>
      { hk with caCert := hcert (by simp [hkey, certKeys]) c h }
  refine ite_invariant (P := WifiKeys.Clean ok) (fun hkey => ?_) fun _ => ?_
  · exact take_invariant (P := WifiKeys.Clean ok) hk fun c h =>
      { hk with clientCert := hcert (by simp [hkey, certKeys]) c h }
  -- the other keys set none of the five fields
  repeat' refine ite_invariant (P := WifiKeys.Clean ok) (fun _ => ?_) fun _ => ?_
  all_goals first
    | exact hk
    | exact take_invariant (P := WifiKeys.Clean ok) hk fun _ _ => { hk with }
    | exact takeOrClear_invariant (P := WifiKeys.Clean ok) fun _ => { hk with }

def CertSource.Held (c : CertSource) : Prop := ∀ s ∈ c.secrets, s.provider ≠ .exec

def CertSource.Kept (c : CertSource) : Prop := c.Held ∧ ∀ file, c ≠ .path file

theorem held_of_asCertSource {v : Value} {c : CertSource} (hv : secretExec v = false)
    (h : asCertSource v = .ok c) : c.Held := by
  intro s hs
  rcases asCertSource_cases h with ⟨t, rfl, ht, -⟩ | ⟨⟨file, rfl⟩, -⟩
  · rw [CertSource.secrets, List.mem_singleton] at hs
    subst hs
    exact secretExec_of_asSecret ht hv
  · cases hs

theorem kept_of_asCertSource {v : Value} {c : CertSource} (hv : secretExec v = false)
    (hp : certIsAPath v = false) (h : asCertSource v = .ok c) : c.Kept := by
  refine ⟨held_of_asCertSource hv h, fun file hfile => ?_⟩
  rcases asCertSource_cases h with ⟨t, rfl, -, -⟩ | ⟨-, hpath⟩
  · cases hfile
  · rw [hp] at hpath
    cases hpath

structure Eap.Clean (ok : CertSource → Prop) (e : Eap) : Prop where
  password : ∀ s ∈ e.password, s.provider ≠ .exec
  certs : ∀ c ∈ e.certs, ok c

/-- A security with no `exec` secret, and certificates of which `ok` holds. -/
def Security.Clean (ok : CertSource → Prop) : Security → Prop
  | .psk passphrase _ => passphrase.provider ≠ .exec
  | .eap config => config.Clean ok
  | _ => True

theorem buildSecurity_clean {ok : CertSource → Prop} {k : WifiKeys} {security : Security}
    (hk : k.Clean ok) (h : buildSecurity k = .ok security) : security.Clean ok := by
  unfold buildSecurity at h
  split at h
  case h_1 passphrase hpsk =>
    cases h
    exact hk.psk _ hpsk
  case h_2 =>
    split at h
    case h_1 =>
      split at h
      · cases h
      · cases h
        refine ⟨hk.password, fun c hc => ?_⟩
        simp only [Eap.certs, List.mem_append, Option.mem_toList] at hc
        rcases hc with (hc | hc) | hc
        · exact hk.caCert c hc
        · exact hk.clientCert c hc
        · exact hk.privateKey c hc
    case h_2 =>
      split_ifs at h
      all_goals
        cases h
        trivial

theorem WifiKeys.clean_none (ok : CertSource → Prop) (proto : PskProto) :
    WifiKeys.Clean ok { proto } := by
  constructor <;> rintro _ ⟨⟩

variable {items file : List Item}

theorem wifiBlock_clean (h : walk "wifi" items = []) :
    ∀ security ∈ (wifiBlock items).1, security.Clean CertSource.Kept := by
  have hkeys : (overItems wifiItem { proto := .wpa2Wpa3 } items).1.Clean CertSource.Kept := by
    refine overItems_invariant items (WifiKeys.clean_none _ _) fun i hi k hk => ?_
    have hwalk := walkItem_of_walk h i hi
    cases i with
    | assignment key v =>
      have hs := secretExec_of_walkItem hwalk
      refine wifiKey_clean hk hs fun hkey c hc => kept_of_asCertSource hs ?_ hc
      have hr : assignmentReason "wifi" key = some .path := by
        simp only [certKeys, List.mem_cons, List.not_mem_nil, or_false] at hkey
        rcases hkey with rfl | rfl | rfl <;> rfl
      exact (assignmentReason_of_walkItem hwalk hr).2
    | block head label overrides items =>
      exact ite_invariant (P := WifiKeys.Clean CertSource.Kept) (fun _ => hk) fun _ => hk
    | hook phase body => exact hk
    | incl path => exact hk
  intro security hsec
  simp only [wifiBlock] at hsec
  split_ifs at hsec
  · cases hsec
  · cases hsec
  · split at hsec
    case h_1 security' hb =>
      obtain rfl := Option.mem_some_iff.1 hsec
      exact buildSecurity_clean hkeys hb
    case h_2 => cases hsec

theorem dot1xBlock_clean (h : walk "dot1x" items = []) :
    ∀ e ∈ (dot1xBlock items).1, e.Clean CertSource.Held := by
  have hkeys : (overItems dot1xItem {} items).1.Clean CertSource.Held := by
    refine overItems_invariant items (WifiKeys.clean_none _ _) fun i hi k hk => ?_
    cases i with
    | assignment key v =>
      have hs := secretExec_of_walkItem (walkItem_of_walk h _ hi)
      refine ite_invariant (P := WifiKeys.Clean CertSource.Held) (fun _ => hk) fun _ => ?_
      exact wifiKey_clean hk hs fun _ c hc => held_of_asCertSource hs hc
    | block head label overrides items => exact hk
    | hook phase body => exact hk
    | incl path => exact hk
  intro e he
  simp only [dot1xBlock] at he
  split_ifs at he
  · cases he
  · split at he
    case h_1 config hb =>
      obtain rfl := Option.mem_some_iff.1 he
      exact buildSecurity_clean hkeys hb
    case h_2 => cases he
    case h_3 => cases he

/-! ## Devices -/

/-- What the gate covers of a device : not the owner of a `tap`. -/
structure Kind.Covered (kind : Kind) : Prop where
  noExec : ∀ s ∈ kind.secrets, s.provider ≠ .exec
  noForeignConfig : ∀ config password, kind ≠ .openvpn config password
  noOwner : ∀ owner group, kind = .tun false owner group → owner = none ∧ group = none

theorem Kind.covered_of_plain {kind : Kind} (hs : kind.secrets = [])
    (ho : ∀ config password, kind ≠ .openvpn config password)
    (ht : ∀ tap owner group, kind ≠ .tun tap owner group) : kind.Covered :=
  ⟨by simp [hs], ho, fun owner group h => absurd h (ht _ _ _)⟩

theorem tunBlock_covered {tap : Bool} (h : tap = false → walk "tun" items = []) :
    (tunBlock tap items).1.Covered := by
  refine ⟨by simp [tunBlock, Kind.secrets], by simp [tunBlock], ?_⟩
  intro owner group hkind
  simp only [tunBlock, Kind.tun.injEq] at hkind
  obtain ⟨htap, rfl, rfl⟩ := hkind
  have hnone : (overItems tunItem (none, none) items).1 = (none, none) := by
    refine overItems_invariant (P := fun t => t = (none, none)) items rfl fun i hi t ht => ?_
    have hwalk := walkItem_of_walk (h htap) i hi
    cases i with
    | assignment key v =>
      refine ite_invariant (P := fun t => t = (none, none)) (fun hkey => ?_) fun _ => ?_
      · rw [hkey] at hwalk
        exact absurd hwalk (key_found .principal rfl (by decide))
      refine ite_invariant (P := fun t => t = (none, none)) (fun hkey => ?_) fun _ => ht
      rw [hkey] at hwalk
      exact absurd hwalk (key_found .principal rfl (by decide))
    | _ => exact ht
  simp [hnone]

def OptionHeld (secret : Option SecretRef) : Prop := ∀ s ∈ secret, s.provider ≠ .exec

theorem optionHeld_none : OptionHeld none := by
  rintro _ ⟨⟩

theorem optionHeld_of_asSecret {v : Value} {s : SecretRef} (h : asSecret v = .ok s)
    (hv : secretExec v = false) : OptionHeld (some s) := by
  intro t ht
  obtain rfl := Option.mem_some_iff.1 ht
  exact secretExec_of_asSecret h hv

theorem peer_held (h : walk "peer" items = []) :
    OptionHeld (overItems peerItem none items).1 := by
  refine overItems_invariant items optionHeld_none fun i hi p hp => ?_
  have hwalk := walkItem_of_walk h i hi
  cases i with
  | assignment key v =>
    refine ite_invariant (fun _ => ?_) fun _ => hp
    exact take_invariant hp fun s hs => optionHeld_of_asSecret hs (secretExec_of_walkItem hwalk)
  | _ => exact hp

def KeysHeld (w : Option SecretRef × List SecretRef) : Prop :=
  OptionHeld w.1 ∧ ∀ s ∈ w.2, s.provider ≠ .exec

theorem wireguardItem_held {w : Option SecretRef × List SecretRef} {i : Item}
    (h : walkItem "wireguard" i = []) (hw : KeysHeld w) : KeysHeld (wireguardItem w i).1 := by
  cases i with
  | assignment key v =>
    refine ite_invariant (fun _ => ?_) fun _ => ite_invariant (fun _ => hw) fun _ => hw
    refine take_invariant hw fun s hs => ⟨?_, hw.2⟩
    exact optionHeld_of_asSecret hs (secretExec_of_walkItem h)
  | block head label overrides items =>
    refine ite_invariant (fun hhead => ?_) fun _ => hw
    cases label with
    | none => exact hw
    | some name =>
      rw [walkItem, hhead] at h
      refine ⟨hw.1, fun s hs => ?_⟩
      rcases List.mem_append.1 hs with hs | hs
      · exact hw.2 s hs
      · exact peer_held h s (Option.mem_toList.1 hs)
  | _ => exact hw

theorem wireguardBlock_covered (h : walk "wireguard" items = []) :
    ∀ kind ∈ (wireguardBlock items).1, kind.Covered := by
  have hkeys : KeysHeld (overItems wireguardItem (none, []) items).1 :=
    overItems_invariant items ⟨optionHeld_none, by simp⟩ fun i hi _ hw =>
      wireguardItem_held (walkItem_of_walk h i hi) hw
  intro kind hkind
  simp only [wireguardBlock] at hkind
  split at hkind
  case h_1 key hkey =>
    obtain rfl := Option.mem_some_iff.1 hkind
    refine ⟨fun s hs => ?_, by simp, by simp⟩
    rcases List.mem_cons.1 hs with rfl | hs
    · exact hkeys.1 s hkey
    · exact hkeys.2 s hs
  case h_2 => cases hkind

/-- The password of a pppoe session is not fetched by a command. -/
def PasswordHeld (p : PppoeKeys) : Prop := OptionHeld p.password

theorem pppoeBlock_covered (h : walk "pppoe" items = []) :
    ∀ kind ∈ (pppoeBlock items).1, kind.Covered := by
  have hkeys : PasswordHeld (overItems pppoeItem {} items).1 := by
    refine overItems_invariant items optionHeld_none fun i hi p hp => ?_
    have hwalk := walkItem_of_walk h i hi
    cases i with
    | assignment key v =>
      refine ite_invariant (P := PasswordHeld) (fun _ => ?_) fun _ => ?_
      · exact takeOrClear_invariant (P := PasswordHeld) fun _ => hp
      refine ite_invariant (P := PasswordHeld) (fun _ => ?_) fun _ => ?_
      · exact takeOrClear_invariant (P := PasswordHeld) fun _ => hp
      refine ite_invariant (P := PasswordHeld) (fun _ => ?_) fun _ => ?_
      · exact take_invariant (P := PasswordHeld) hp fun s hs =>
          optionHeld_of_asSecret hs (secretExec_of_walkItem hwalk)
      refine ite_invariant (P := PasswordHeld) (fun _ => ?_) fun _ => hp
      exact takeOrClear_invariant (P := PasswordHeld) fun _ => hp
    | _ => exact hp
  intro kind hkind
  simp only [pppoeBlock] at hkind
  split_ifs at hkind
  · cases hkind
  · split at hkind
    case h_1 username password hu hp =>
      obtain rfl := Option.mem_some_iff.1 hkind
      refine ⟨fun s hs => ?_, by simp, by simp⟩
      obtain rfl := List.mem_singleton.1 hs
      exact hkeys s hp
    case h_2 => cases hkind

def Unnamed (o : OpenvpnKeys) : Prop := o.config = none

theorem openvpnBlock_eq_none (h : walk "openvpn" items = []) :
    (openvpnBlock items).1 = none := by
  have hconfig : Unnamed (overItems openvpnItem {} items).1 := by
    refine overItems_invariant items rfl fun i hi o ho => ?_
    have hwalk := walkItem_of_walk h i hi
    cases i with
    | assignment key v =>
      refine ite_invariant (P := Unnamed) (fun hkey => ?_) fun _ => ?_
      · rcases hkey with rfl | rfl <;>
          exact absurd hwalk (key_found .foreignConfig rfl (by decide))
      refine ite_invariant (P := Unnamed) (fun _ => ?_) fun _ => ?_
      · exact takeOrClear_invariant (P := Unnamed) fun _ => ho
      refine ite_invariant (P := Unnamed) (fun _ => ?_) fun _ => ho
      exact take_invariant (P := Unnamed) ho fun _ _ => ho
    | _ => exact ho
  unfold Unnamed at hconfig
  simp only [openvpnBlock, hconfig]

theorem kindBlock_covered {head : String} (h : walk head items = []) :
    ∀ kind ∈ (kindBlock head items).1, kind.Covered := by
  intro kind hkind
  unfold kindBlock at hkind
  split_ifs at hkind with htun hwg hppp hvpn
  · obtain rfl := Option.mem_some_iff.1 hkind
    refine tunBlock_covered fun htap => ?_
    rcases htun with rfl | rfl
    · exact h
    · simp at htap
  · exact wireguardBlock_covered (hwg ▸ h) kind hkind
  · exact pppoeBlock_covered (hppp ▸ h) kind hkind
  · rw [openvpnBlock_eq_none (hvpn ▸ h)] at hkind
    cases hkind
  · obtain rfl := Option.mem_some_iff.1 hkind
    exact Kind.covered_of_plain rfl (by simp) (by simp)

theorem device_covered (h : walk "device" items = []) :
    (overItems deviceItem .physical items).1.Covered := by
  have hphysical : Kind.physical.Covered := Kind.covered_of_plain rfl (by simp) (by simp)
  refine overItems_invariant items hphysical fun i hi kind hkind => ?_
  have hwalk := walkItem_of_walk h i hi
  cases i with
  | block head label overrides items =>
    refine ite_invariant (fun _ => ?_) fun _ => hkind
    change ((kindBlock head items).1.getD kind).Covered
    cases hlow : (kindBlock head items).1 with
    | none => exact hkind
    | some lowered => exact kindBlock_covered (by simpa [walkItem] using hwalk) lowered hlow
  | assignment key v =>
    refine ite_invariant (P := Kind.Covered) (fun _ => ?_) fun _ => hkind
    refine take_invariant (P := Kind.Covered) hkind fun named hnamed => ?_
    rcases kind_of_word hnamed with rfl | rfl
    · exact Kind.covered_of_plain rfl (by simp) (by simp)
    · exact hphysical
  | _ => exact hkind

/-! ## Interfaces, networks and stations -/

/-- What the gate covers of an interface : not a certificate of its `dot1x`. -/
structure Interface.Covered (i : Interface) : Prop where
  noHook : i.hooks = []
  noProbe : i.probe = none
  dot1x : ∀ e ∈ i.dot1x, e.Clean CertSource.Held

def Probe.Idle (p : Probe) : Prop := p.command = none

theorem probeBlock_eq_none (h : walk "probe" items = []) :
    (probeBlock items).1 = none := by
  have hcommand : (overItems probeItem {} items).1.Idle := by
    refine overItems_invariant items rfl fun i hi p hp => ?_
    have hwalk := walkItem_of_walk h i hi
    cases i with
    | assignment key v =>
      refine ite_invariant (P := Probe.Idle) (fun hkey => ?_) fun _ => ?_
      · rw [hkey] at hwalk
        exact absurd hwalk (key_found .probe rfl (by decide))
      repeat' refine ite_invariant (P := Probe.Idle) (fun _ => ?_) fun _ => ?_
      all_goals first
        | exact hp
        | exact take_invariant (P := Probe.Idle) hp fun _ _ => hp
    | _ => exact hp
  unfold Probe.Idle at hcommand
  simp only [probeBlock, hcommand]

theorem interface_covered {name : String} (h : walk "interface" items = []) :
    (overItems interfaceItem { name } items).1.Covered := by
  refine overItems_invariant items ⟨rfl, rfl, by simp⟩ fun i hi face hface => ?_
  have hwalk := walkItem_of_walk h i hi
  cases i with
  | block head label overrides items =>
    rw [walkItem] at hwalk
    refine ite_invariant (fun hhead => ?_) fun _ => ite_invariant (fun hhead => ?_) fun _ => hface
    · refine { hface with noProbe := ?_ }
      rw [hhead] at hwalk
      change (probeBlock items).1.or face.probe = none
      rw [probeBlock_eq_none hwalk, hface.noProbe, Option.none_or]
    · refine { hface with dot1x := fun e he => ?_ }
      rw [hhead] at hwalk
      rcases Option.or_eq_some_iff.1 he with he | ⟨-, he⟩
      · exact dot1xBlock_clean hwalk e he
      · exact hface.dot1x e he
  | hook phase body => simp [walkItem] at hwalk
  | incl path => simp [walkItem] at hwalk
  | assignment key v => exact hface

structure Network.Covered (n : Network) : Prop where
  noHook : n.hooks = []
  security : ∀ s ∈ n.security, s.Clean CertSource.Kept

theorem security_or {security old : Option Security} {ok : CertSource → Prop}
    (h : ∀ s ∈ security, s.Clean ok) (hold : ∀ s ∈ old, s.Clean ok) :
    ∀ s ∈ security.or old, s.Clean ok := by
  intro s hs
  rcases Option.or_eq_some_iff.1 hs with hs | ⟨-, hs⟩
  · exact h s hs
  · exact hold s hs

theorem network_covered {id : String} (h : walk "network" items = []) :
    (overItems networkItem { id } items).1.Covered := by
  refine overItems_invariant items ⟨rfl, by simp⟩ fun i hi n hn => ?_
  have hwalk := walkItem_of_walk h i hi
  cases i with
  | block head label overrides items =>
    rw [walkItem] at hwalk
    refine ite_invariant (fun hhead => ?_) fun _ => ite_invariant (fun _ => hn) fun _ => hn
    rw [hhead] at hwalk
    exact { hn with security := security_or (wifiBlock_clean hwalk) hn.security }
  | hook phase body => simp [walkItem] at hwalk
  | incl path => simp [walkItem] at hwalk
  | assignment key v => exact hn

/-- What the gate covers of an access point or a mesh. -/
structure Station.Covered (a : Station) : Prop where
  security : ∀ s ∈ a.security, s.Clean CertSource.Kept
  roamingKey : OptionHeld a.roamingKey

theorem accessPoint_covered {id : String} (h : walk "access_point" items = []) :
    (overItems accessPointItem { id } items).1.Covered := by
  refine overItems_invariant items ⟨by simp, optionHeld_none⟩ fun i hi a ha => ?_
  have hwalk := walkItem_of_walk h i hi
  cases i with
  | assignment key v =>
    refine ite_invariant (fun _ => take_invariant ha fun s hs => ?_) fun _ => ha
    exact { ha with roamingKey := optionHeld_of_asSecret hs (secretExec_of_walkItem hwalk) }
  | block head label overrides items =>
    rw [walkItem] at hwalk
    refine ite_invariant (fun hhead => ?_) fun _ => ite_invariant (fun _ => ha) fun _ => ha
    rw [hhead] at hwalk
    exact { ha with security := security_or (wifiBlock_clean hwalk) ha.security }
  | _ => exact ha

theorem mesh_covered {id : String} (h : walk "mesh" items = []) :
    (overItems meshItem { id } items).1.Covered := by
  refine overItems_invariant items ⟨by simp, optionHeld_none⟩ fun i hi a ha => ?_
  have hwalk := walkItem_of_walk h i hi
  cases i with
  | block head label overrides items =>
    rw [walkItem] at hwalk
    refine ite_invariant (fun hhead => ?_) fun _ => ha
    rw [hhead] at hwalk
    exact { ha with security := security_or (wifiBlock_clean hwalk) ha.security }
  | _ => exact ha

/-! ## Who may ask for what -/

/-- What the gate covers of the host-wide policy : not the `agent`. -/
structure Policy.Covered (p : Policy) : Prop where
  control : p.control = {}
  remote : p.remote = { agent := p.remote.agent }

theorem control_covered (h : walk "control" items = []) :
    (overAssignments controlKey {} items).1 = {} := by
  refine overItems_invariant (P := fun c => c = ({} : Control)) items rfl fun i hi c hc => ?_
  have hwalk := walkItem_of_walk h i hi
  cases i with
  | assignment key v =>
    have hkey : key ≠ "observe" ∧ key ≠ "wifi" ∧ key ≠ "admin" := by
      refine ⟨?_, ?_, ?_⟩ <;> rintro rfl <;>
        exact absurd hwalk (key_found .authorization rfl (by decide))
    change (controlKey c key v).1 = {}
    unfold controlKey
    split
    · exact hc
    split
    · exact hc
    rw [if_neg hkey.1, if_neg hkey.2.1, if_neg hkey.2.2]
    exact hc
  | _ => exact hc

theorem remote_covered {r : Remote} (h : walk "remote" items = []) (hr : r = { agent:= r.agent }) :
    (overAssignments remoteKey r items).1 =
      { agent := (overAssignments remoteKey r items).1.agent } := by
  refine overItems_invariant (P := fun r : Remote => r = { agent := r.agent }) items hr
    fun i hi r hr => ?_
  have hwalk := walkItem_of_walk h i hi
  cases i with
  | assignment key v =>
    have hkey : key ≠ "observe" ∧ key ≠ "wifi" ∧ key ≠ "admin" := by
      refine ⟨?_, ?_, ?_⟩ <;> rintro rfl <;>
        exact absurd hwalk (key_found .authorization rfl (by decide))
    change (remoteKey r key v).1 = { agent := (remoteKey r key v).1.agent }
    unfold remoteKey
    rw [if_neg hkey.1, if_neg hkey.2.1, if_neg hkey.2.2]
    refine ite_invariant (P := fun r : Remote => r = { agent := r.agent }) (fun _ => ?_) fun _ => hr
    refine take_invariant (P := fun r : Remote => r = { agent := r.agent }) hr fun agent _ => ?_
    rw [hr]
  | _ => exact hr

theorem global_covered {p : Policy} (h : walk "global" items = []) (hp : p.Covered) :
    (overItems globalItem p items).1.Covered := by
  refine overItems_invariant items hp fun i hi p hp => ?_
  have hwalk := walkItem_of_walk h i hi
  cases i with
  | block head label overrides items =>
    rw [walkItem] at hwalk
    refine ite_invariant (fun hhead => ?_) fun _ => ite_invariant (fun hhead => ?_) fun _ =>
      ite_invariant (fun _ => hp) fun _ => hp
    · rw [hhead] at hwalk
      refine { hp with control := ?_ }
      change (overAssignments controlKey p.control items).1 = {}
      rw [hp.control]
      exact control_covered hwalk
    · rw [hhead] at hwalk
      exact { hp with remote := remote_covered hwalk hp.remote }
  | _ => exact hp

/-! ## The document -/

/-- What a file without findings may still grant. -/
structure Grants.Covered (d : Grants) : Prop where
  policy : d.policy.Covered
  devices : ∀ kind ∈ d.devices, kind.Covered
  interfaces : ∀ i ∈ d.interfaces, i.Covered
  networks : ∀ n ∈ d.networks, n.Covered
  accessPoints : ∀ a ∈ d.accessPoints, a.Covered
  meshes : ∀ a ∈ d.meshes, a.Covered

theorem forall_mem_concat {α : Type*} {P : α → Prop} {l : List α} {a : α} (hl : ∀ x ∈ l, P x)
    (ha : P a) : ∀ x ∈ l ++ [a], P x := by
  simpa [or_imp, forall_and] using ⟨hl, ha⟩

theorem labelled_invariant {P : Grants → Prop} {d : Grants} {b : MergedBlock}
    {lower : String → Grants × List String} (hd : P d) (h : ∀ label, P (lower label).1) :
    P (labelled d b lower).1 := by
  unfold labelled
  cases b.label with
  | none => exact hd
  | some label => exact h label

theorem lowerBlock_covered {d : Grants} {b : MergedBlock} (h : walk b.head b.items = [])
    (hd : d.Covered) : (lowerBlock d b).1.Covered := by
  unfold lowerBlock
  refine ite_invariant (fun hb => ?_) fun _ => ?_
  · rw [hb] at h
    exact { hd with policy := global_covered h hd.policy }
  refine ite_invariant (fun hb => ?_) fun _ => ?_
  · rw [hb] at h
    exact labelled_invariant hd fun _ =>
      { hd with devices := forall_mem_concat hd.devices (device_covered h) }
  refine ite_invariant (fun hb => ?_) fun _ => ?_
  · rw [hb] at h
    exact labelled_invariant hd fun _ =>
      { hd with interfaces := forall_mem_concat hd.interfaces (interface_covered h) }
  refine ite_invariant (fun hb => ?_) fun _ => ?_
  · rw [hb] at h
    exact labelled_invariant hd fun _ => ite_invariant (fun _ => hd) fun _ =>
      { hd with networks := forall_mem_concat hd.networks (network_covered h) }
  refine ite_invariant (fun hb => ?_) fun _ => ?_
  · rw [hb] at h
    exact labelled_invariant hd fun _ => ite_invariant (fun _ => hd) fun _ =>
      { hd with accessPoints := forall_mem_concat hd.accessPoints (accessPoint_covered h) }
  refine ite_invariant (fun hb => ?_) fun _ => hd
  rw [hb] at h
  refine labelled_invariant hd fun _ => ite_invariant (fun _ => ?_) fun _ => hd
  exact { hd with meshes := forall_mem_concat hd.meshes (mesh_covered h) }

/-! ## Merging -/

def Unfound (merged : List MergedBlock) : Prop := ∀ b ∈ merged, walk b.head b.items = []

theorem mergeIntoGlobal_unfound {target : List Item} {i : Item} (hi : walkItem "global" i = [])
    (ht : ∀ j ∈ target, walkItem "global" j = []) :
    ∀ j ∈ (mergeIntoGlobal target i).1, walkItem "global" j = [] := by
  intro j hj
  rcases mem_mergeIntoGlobal hj with rfl | hj
  · exact hi
  · exact ht j hj

theorem unfound_replace {merged : List MergedBlock} {head : String} {label : Option String}
    (hm : Unfound merged) (hi : walk head items = []) :
    Unfound (merged.map fun b =>
      if b.head = head ∧ b.label = label then { b with items } else b) := by
  intro b hb
  obtain ⟨b', hb', rfl⟩ := List.mem_map.1 hb
  split_ifs with h
  · rw [h.1]
    exact hi
  · exact hm b' hb'

theorem mergeBlock_unfound {merged : List MergedBlock} {head : String} {label : Option String}
    {overrides : Bool} (hm : Unfound merged) (hi : walk head items = []) :
    Unfound (mergeBlock merged head label overrides items).1 := by
  unfold mergeBlock
  split
  case h_1 existing hfind =>
    refine ite_invariant (fun _ => unfound_replace hm hi) fun _ => ?_
    refine ite_invariant (fun hhead => unfound_replace hm ?_) fun _ => hm
    have hexisting : walk "global" existing.items = [] := by
      have hsame := List.find?_some hfind
      simp only [decide_eq_true_eq] at hsame
      rw [← hhead, ← hsame.1]
      exact hm existing (List.mem_of_find?_eq_some hfind)
    rw [hhead] at hi ⊢
    refine walk_of_walkItem (overItems_invariant
      (P := fun l => ∀ j ∈ l, walkItem "global" j = []) items (walkItem_of_walk hexisting)
      fun i hmem target ht => ?_)
    exact mergeIntoGlobal_unfound (walkItem_of_walk hi i hmem) ht
  case h_2 =>
    exact ite_invariant (fun _ => hm) fun _ => forall_mem_concat hm hi

theorem merge_unfound (h : privilegeFindings file = []) :
    Unfound (merge file).1 := by
  refine overItems_invariant file (by intro b hb; cases hb) fun i hi merged hm => ?_
  have hwalk := walkItem_of_walk h i hi
  cases i with
  | block head label overrides items => exact mergeBlock_unfound hm hwalk
  | _ => exact hm

theorem compile_ok {d : Grants} (h : compile file = .ok d) :
    (overItems lowerBlock {} (merge file).1).2 = [] ∧
      d = (overItems lowerBlock {} (merge file).1).1 := by
  simp only [compile] at h
  split_ifs at h with hm hl
  cases h
  exact ⟨not_not.1 hl, rfl⟩

/-- A file without findings compiles to what is covered. -/
theorem covered_of_findings {d : Grants} (h : compile file = .ok d)
    (hf : privilegeFindings file = []) : d.Covered := by
  rw [(compile_ok h).2]
  have hempty : Grants.Covered {} := by
    constructor
    case policy => exact ⟨rfl, rfl⟩
    all_goals
      intro x hx
      cases hx
  exact overItems_invariant _ hempty fun b hb _ hd =>
    lowerBlock_covered (merge_unfound hf b hb) hd

mutual

theorem includes_of_walkItem {block : String} :
    ∀ i : Item, walkItem block i = [] → i.includes = false
  | .incl _, h => by simp [walkItem] at h
  | .block _ _ _ items, h => by
    rw [walkItem] at h
    rw [Item.includes, includesAny_of_walk items h]
  | .assignment _ _, _ => rfl
  | .hook _ _, _ => rfl

/-- A file without findings includes nothing. -/
theorem includesAny_of_walk {block : String} :
    ∀ items : List Item, walk block items = [] → includesAny items = false
  | [], _ => rfl
  | i :: is, h => by
    rw [walk] at h
    obtain ⟨hi, his⟩ := List.append_eq_nil_iff.1 h
    rw [includesAny, includes_of_walkItem i hi, includesAny_of_walk is his, Bool.or_self]

end

end Netcfgd.Compile
