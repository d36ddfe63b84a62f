import Netcfgd.Request

/-!
# Requests and events survive the wire

Each reader of the decoder is given what the field of its name holds, so a payload that is
written is read arm by arm (`decodePayload_told`), and a line that is read had the names of its
kind's table and nothing else at any level (`decodeRequest_defined`). What was read has all that
the encoder asks for, so it is written again where its strings are UTF-8
(`requestEncode_of_fields`). `messages_survive` is the two together, of requests and of events.
-/

namespace Netcfgd.Proto

open Netcfgd.Json

/-! ## The tables -/

/-- The names of the members of an arm, in the order they are written. -/
def Arm.members : Arm → List String
  | .bare => []
  | .apply =>
    ["confirm", "allow_disruption", "strand_credentials", "restart_wedged", "no_rollback"]
  | .explain => ["subject"]
  | .interface => ["interface"]
  | .wifiAdd => ["ssid", "id", "passphrase", "proto", "hidden", "metric", "eap", "owe"]
  | .wifiConnect => ["interface", "network"]
  | .id => ["id"]
  | .put => ["name", "text", "replace"]
  | .secretPut => ["name", "value", "replace"]
  | .profileSet | .delete => ["name"]
  | .profileSave => ["name", "replace"]
  | .radioSet => ["interface", "activate"]

def Subject.members : Subject → List String
  | .interface _ => ["name"]
  | .address _ _ => ["interface", "address"]
  | .route _ _ => ["interface", "destination"]

/-- The members of an object with a table of names, none of them holding an object. -/
structure Table (names : List String) (ms : Members) : Prop where
  once : OnlyOnce names ms
  flat : ∀ m ∈ ms, Flat m.2

/-- The members of a request's line : those of its kind, each once, at every level. -/
structure Defined (r : Request) (ms : Members) : Prop where
  once : OnlyOnce ("request" :: r.kind.members) ms
  flat : ∀ m ∈ ms, m.1 ≠ asciis "subject" → m.1 ≠ asciis "eap" → Flat m.2
  subject : ∀ m ∈ ms, m.1 = asciis "subject" → ∃ (s : Subject) (inner : Members),
    r = ⟨.explain, s⟩ ∧ m.2 = .object inner ∧ Table ("subject" :: s.members) inner
  eap : ∀ m ∈ ms, m.1 = asciis "eap" →
    r.kind = .wifiAdd ∧ (m.2 = .null ∨ ∃ inner, m.2 = .object inner ∧ Table eapMembers inner)

theorem members_arm (kind : RequestKind) : kind.members = kind.arm.members := by
  cases kind <;> rfl

theorem proper_members (a : Arm) : Proper ("request" :: a.members) := by
  cases a <;> exact proper_of_checks rfl

theorem proper_subject : ∀ s : Subject, Proper ("subject" :: s.members)
  | .interface _ => (proper_of_checks rfl : Proper ["subject", "name"])
  | .address _ _ => (proper_of_checks rfl : Proper ["subject", "interface", "address"])
  | .route _ _ => (proper_of_checks rfl : Proper ["subject", "interface", "destination"])

theorem proper_eap : Proper eapMembers :=
  proper_of_checks rfl

theorem ofName_name (kind : RequestKind) :
    RequestKind.ofName (some (asciis kind.name)) = some kind := by
  cases kind <;> decide

theorem clean_name (kind : RequestKind) : Clean (asciis kind.name) := by
  cases kind <;> exact clean_of_stored rfl

theorem cString_name (kind : RequestKind) :
    Writer.cString (asciis kind.name) = asciis kind.name :=
  cString_eq fun c hc => (clean_name kind c hc).1

theorem isSome_of_ne {text : Option Bytes} (h : text ≠ none) (b : Bool) :
    b = true → text.isSome = true :=
  fun _ => Option.isSome_iff_ne_none.2 h

theorem optional (text : Option Bytes) : false = true → text.isSome = true :=
  fun h => (Bool.false_ne_true h).elim

/-! ## What is written is read -/

theorem getStr_tag {fields : List Field} (h : Proper (fields.map Prod.fst)) {name : String}
    {text : Bytes} (hmem : (name, some (.scalar (.string text))) ∈ fields) (required : Bool)
    (what : String) :
    getStr (told fields) name required what = .ok (some (Writer.cString text)) := by
  rw [getStr, present, member?_told h hmem]
  rfl

theorem encodeSubject_names {s : Subject} {fields : List Field} (h : encodeSubject s = .ok fields) :
    fields.map Prod.fst = "subject" :: s.members := by
  cases s with
  | interface | address | route =>
    rw [encodeSubject] at h
    split_ifs at h
    · cases h
    · obtain rfl := Except.ok.inj h
      rfl

theorem decodeSubject_told {s : Subject} {fields : List Field} (h : encodeSubject s = .ok fields) :
    decodeSubject (.object (told fields)) = .ok s := by
  have hnames := encodeSubject_names h
  have hp : Proper (fields.map Prod.fst) := hnames ▸ proper_subject s
  have honce : ∀ what, checkMembers (told fields) ("subject" :: s.members) what = .ok () :=
    fun what => checkMembers_iff.2 (hnames ▸ onlyOnce_told hp)
  set what := "an `explain` subject" with hwhat
  cases s with
  | interface name =>
    rw [encodeSubject] at h
    split_ifs at h with hname
    · cases h
    obtain rfl := Except.ok.inj h
    have htag : getStr _ "subject" true what = .ok (some (asciis "interface")) :=
      getStr_tag hp List.mem_cons_self true what
    have hread : getStr _ "name" true what = .ok name :=
      getStr_told hp (by simp) (isSome_of_ne hname true) what
    rw [decodeSubject, ← hwhat, htag, hread]
    dsimp only [bind, Except.bind]
    rw [if_pos rfl, show checkMembers _ ["subject", "name"] what = .ok () from honce what]
  | address interface address =>
    rw [encodeSubject] at h
    split_ifs at h with habsent
    · cases h
    obtain rfl := Except.ok.inj h
    obtain ⟨hinterface, haddress⟩ := not_or.1 habsent
    have htag : getStr _ "subject" true what = .ok (some (asciis "address")) :=
      getStr_tag hp List.mem_cons_self true what
    have hread : getStr _ "interface" true what = .ok interface :=
      getStr_told hp (by simp) (isSome_of_ne hinterface true) what
    have hread' : getStr _ "address" true what = .ok address :=
      getStr_told hp (by simp) (isSome_of_ne haddress true) what
    rw [decodeSubject, ← hwhat, htag, hread, hread']
    dsimp only [bind, Except.bind]
    rw [if_neg (by decide), if_pos rfl,
      show checkMembers _ ["subject", "interface", "address"] what = .ok () from honce what]
  | route interface destination =>
    rw [encodeSubject] at h
    split_ifs at h with habsent
    · cases h
    obtain rfl := Except.ok.inj h
    obtain ⟨hinterface, hdestination⟩ := not_or.1 habsent
    have htag : getStr _ "subject" true what = .ok (some (asciis "route")) :=
      getStr_tag hp List.mem_cons_self true what
    have hread : getStr _ "interface" true what = .ok interface :=
      getStr_told hp (by simp) (isSome_of_ne hinterface true) what
    have hread' : getStr _ "destination" true what = .ok destination :=
      getStr_told hp (by simp) (isSome_of_ne hdestination true) what
    rw [decodeSubject, ← hwhat, htag, hread, hread']
    dsimp only [bind, Except.bind]
    rw [if_neg (by decide), if_neg (by decide), if_pos rfl,
      show checkMembers _ ["subject", "interface", "destination"] what = .ok () from honce what]

theorem decodeEap_told {e : Eap} (hmethod : e.method ≠ none) (hidentity : e.identity ≠ none) :
    decodeEap (.object (told (eapFields e))) = .ok e := by
  set what := "a `wifi_add` eap" with hwhat
  have hp : Proper ((eapFields e).map Prod.fst) := proper_eap
  have honce : checkMembers (told (eapFields e)) ("method" :: eapMembers) what = .ok () := by
    refine checkMembers_iff.2 ⟨(onlyOnce_told hp).1, fun m hm => ?_⟩
    exact List.mem_cons_of_mem _ ((onlyOnce_told hp).2 m hm)
  have hread₁ : getStr _ "method" true what = .ok e.method :=
    getStr_told hp (by simp [eapFields]) (isSome_of_ne hmethod true) what
  have hread₂ : getStr _ "identity" true what = .ok e.identity :=
    getStr_told hp (by simp [eapFields]) (isSome_of_ne hidentity true) what
  have hread₃ : getStr _ "anonymous_identity" false what = .ok e.anonymousIdentity :=
    getStr_told hp (by simp [eapFields]) (optional _) what
  have hread₄ : getStr _ "phase2" false what = .ok e.phase2 :=
    getStr_told hp (by simp [eapFields]) (optional _) what
  have hread₅ : getStr _ "ca_cert" false what = .ok e.caCert :=
    getStr_told hp (by simp [eapFields]) (optional _) what
  have hread₆ : getStr _ "client_cert" false what = .ok e.clientCert :=
    getStr_told hp (by simp [eapFields]) (optional _) what
  rw [decodeEap, ← hwhat, hread₁, hread₂, hread₃, hread₄, hread₅, hread₆, honce]
  rfl

theorem decodeEapMember_told {fields : List Field} (hp : Proper (fields.map Prod.fst))
    {e : Option Eap} (hmem : ("eap", e.map fun e => .object (written (eapFields e))) ∈ fields)
    (hthere : ¬∃ e' ∈ e, e'.method = none ∨ e'.identity = none) :
    decodeEapMember (told fields) = .ok e := by
  rw [decodeEapMember, present, member?_told hp hmem]
  cases e with
  | none => rfl
  | some e =>
    have hfilled := not_or.1 fun habsent => hthere ⟨e, rfl, habsent⟩
    exact congrArg (Except.map some) (decodeEap_told hfilled.1 hfilled.2)

theorem encodePayload_names {kind : String} {a : Arm} {p : a.Payload} {fields : List Field}
    (h : encodePayload kind a p = .ok fields) : fields.map Prod.fst = a.members := by
  cases a with
  | bare | apply | profileSet =>
    obtain rfl := Except.ok.inj h
    rfl
  | explain =>
    rw [encodePayload] at h
    cases hs : encodeSubject p with
    | error why =>
      rw [hs] at h
      cases h
    | ok inner =>
      rw [hs] at h
      obtain rfl := Except.ok.inj h
      rfl
  | interface | wifiAdd | wifiConnect | id | put | secretPut | delete | profileSave | radioSet =>
    rw [encodePayload] at h
    split_ifs at h
    all_goals cases h
    all_goals rfl

section

variable {tag : Option Script} {fields : List Field} {kind : String} (what : String)

theorem decodePayload_told {a : Arm} {p : a.Payload} (h : encodePayload kind a p = .ok fields) :
    decodePayload (told (("request", tag) :: fields)) what a = .ok p := by
  have hp : Proper ((("request", tag) :: fields).map Prod.fst) := by
    rw [List.map_cons, encodePayload_names h]
    exact proper_members a
  cases a with
  | bare => rfl
  | apply =>
    obtain ⟨confirm, allowDisruption, strandCredentials, restartWedged, noRollback⟩ := p
    obtain rfl := Except.ok.inj h
    have hread₁ : getInt _ "confirm" false what = .ok confirm :=
      getInt_told hp (by simp) (fun h => (Bool.false_ne_true h).elim) what
    have hread₂ : getStrs _ "allow_disruption" false what = .ok allowDisruption :=
      getStrs_told hp (by simp) false what
    have hread₃ : getStrs _ "strand_credentials" false what = .ok strandCredentials :=
      getStrs_told hp (by simp) false what
    have hread₄ : getStrs _ "restart_wedged" false what = .ok restartWedged :=
      getStrs_told hp (by simp) false what
    have hread₅ : getStr _ "no_rollback" false what = .ok noRollback :=
      getStr_told hp (by simp) (optional _) what
    rw [decodePayload, hread₁, hread₂, hread₃, hread₄, hread₅]
    rfl
  | explain =>
    rw [encodePayload] at h
    cases hs : encodeSubject p with
    | error why =>
      rw [hs] at h
      cases h
    | ok inner =>
      rw [hs] at h
      obtain rfl := Except.ok.inj h
      have hmember : member? (told (("request", tag) ::
          [("subject", some (Script.object (written inner)))])) "subject" =
          some (.object (told inner)) :=
        member?_told hp (List.mem_cons_of_mem _ List.mem_cons_self)
      rw [decodePayload, hmember]
      exact decodeSubject_told hs
  | interface =>
    rw [encodePayload] at h
    split_ifs at h with hinterface
    · cases h
    obtain rfl := Except.ok.inj h
    exact getStr_told hp (by simp) (isSome_of_ne hinterface true) what
  | wifiAdd =>
    rw [encodePayload] at h
    split_ifs at h with hssid heap
    · cases h
    · cases h
    obtain rfl := Except.ok.inj h
    obtain ⟨ssid, id, passphrase, proto, hidden, metric, eap, owe⟩ := p
    have hread₁ : getStr _ "ssid" true what = .ok ssid :=
      getStr_told hp (by simp [wifiAddFields]) (isSome_of_ne hssid true) what
    have hread₂ : getStr _ "id" false what = .ok id :=
      getStr_told hp (by simp [wifiAddFields]) (optional _) what
    have hread₃ : getStr _ "passphrase" false what = .ok passphrase :=
      getStr_told hp (by simp [wifiAddFields]) (optional _) what
    have hread₄ : getStr _ "proto" false what = .ok proto :=
      getStr_told hp (by simp [wifiAddFields]) (optional _) what
    have hread₅ : getBool _ "hidden" false false what = .ok hidden :=
      getBool_flag hp (by simp [wifiAddFields]) what
    have hread₆ : getBool _ "owe" false false what = .ok owe :=
      getBool_flag hp (by simp [wifiAddFields]) what
    have hread₇ : getInt _ "metric" false what = .ok metric :=
      getInt_told hp (by simp [wifiAddFields]) (fun h => (Bool.false_ne_true h).elim) what
    have hread₈ := decodeEapMember_told hp (e := eap) (by simp [wifiAddFields]) heap
    rw [decodePayload, hread₁, hread₂, hread₃, hread₄, hread₅, hread₆, hread₇, hread₈]
    rfl
  | wifiConnect =>
    rw [encodePayload] at h
    split_ifs at h with hinterface hnetwork
    · cases h
    · cases h
    obtain rfl := Except.ok.inj h
    obtain ⟨interface, network⟩ := p
    have hread₁ : getStr _ "interface" true what = .ok interface :=
      getStr_told hp (by simp) (isSome_of_ne hinterface true) what
    have hread₂ : getStr _ "network" true what = .ok network :=
      getStr_told hp (by simp) (isSome_of_ne hnetwork true) what
    rw [decodePayload, hread₁, hread₂]
    rfl
  | id =>
    rw [encodePayload] at h
    split_ifs at h with hid
    · cases h
    obtain rfl := Except.ok.inj h
    exact getStr_told hp (by simp) (isSome_of_ne hid true) what
  | put =>
    rw [encodePayload] at h
    split_ifs at h with hname htext
    · cases h
    · cases h
    obtain rfl := Except.ok.inj h
    obtain ⟨name, text, replace⟩ := p
    have hread₁ : getStr _ "name" true what = .ok name :=
      getStr_told hp (by simp) (isSome_of_ne hname true) what
    have hread₂ : getStr _ "text" true what = .ok text :=
      getStr_told hp (by simp) (isSome_of_ne htext true) what
    have hread₃ : getBool _ "replace" false false what = .ok replace :=
      getBool_flag hp (by simp) what
    rw [decodePayload, hread₁, hread₂, hread₃]
    rfl
  | secretPut =>
    rw [encodePayload] at h
    split_ifs at h with hname hvalue
    · cases h
    · cases h
    obtain rfl := Except.ok.inj h
    obtain ⟨name, value, replace⟩ := p
    have hread₁ : getStr _ "name" true what = .ok name :=
      getStr_told hp (by simp) (isSome_of_ne hname true) what
    have hread₂ : getStr _ "value" true what = .ok value :=
      getStr_told hp (by simp) (isSome_of_ne hvalue true) what
    have hread₃ : getBool _ "replace" false false what = .ok replace :=
      getBool_flag hp (by simp) what
    rw [decodePayload, hread₁, hread₂, hread₃]
    rfl
  | profileSet =>
    obtain rfl := Except.ok.inj h
    exact getStr_told hp (by simp) (optional _) what
  | delete =>
    rw [encodePayload] at h
    split_ifs at h with hname
    · cases h
    obtain rfl := Except.ok.inj h
    exact getStr_told hp (by simp) (isSome_of_ne hname true) what
  | profileSave =>
    rw [encodePayload] at h
    split_ifs at h with hname
    · cases h
    obtain rfl := Except.ok.inj h
    obtain ⟨name, replace⟩ := p
    have hread₁ : getStr _ "name" true what = .ok name :=
      getStr_told hp (by simp) (isSome_of_ne hname true) what
    have hread₂ : getBool _ "replace" false false what = .ok replace :=
      getBool_flag hp (by simp) what
    rw [decodePayload, hread₁, hread₂]
    rfl
  | radioSet =>
    rw [encodePayload] at h
    split_ifs at h with hinterface
    · cases h
    obtain rfl := Except.ok.inj h
    obtain ⟨interface, activate⟩ := p
    have hread₁ : getStr _ "interface" true what = .ok interface :=
      getStr_told hp (by simp) (isSome_of_ne hinterface true) what
    have hread₂ : getBool _ "activate" true false what = .ok activate :=
      getBool_told hp (by simp) true false what
    rw [decodePayload, hread₁, hread₂]
    rfl

end

theorem decodeRequest_told {r : Request} {fields : List Field}
    (h : encodePayload r.kind.name r.kind.arm r.payload = .ok fields) :
    decodeRequest (told (("request", some (.scalar (.string (asciis r.kind.name)))) :: fields)) =
      .ok r := by
  obtain ⟨kind, payload⟩ := r
  have hp : Proper ((("request", some (.scalar (.string (asciis kind.name)))) :: fields).map
      Prod.fst) := by
    rw [List.map_cons, encodePayload_names h]
    exact proper_members kind.arm
  set what := "this request" with hwhat
  have htag := getStr_tag hp List.mem_cons_self true what
  rw [cString_name] at htag
  have hpayload : decodePayload (told (("request", some (.scalar (.string (asciis kind.name)))) ::
      fields)) what kind.arm = .ok payload := decodePayload_told what h
  have honce := onlyOnce_told hp
  rw [List.map_cons, encodePayload_names h, ← members_arm] at honce
  rw [decodeRequest, ← hwhat, htag]
  dsimp only [bind, Except.bind]
  rw [ofName_name]
  dsimp only [bind, Except.bind]
  rw [hpayload]
  dsimp only
  rw [checkMembers_iff.2 honce]

theorem requestEncode_eq {limit : ℕ} {r : Request} {text : Bytes}
    (h : requestEncode limit r = .ok text) : ∃ fields,
      encodePayload r.kind.name r.kind.arm r.payload = .ok fields ∧
        (write limit (requestLine r.kind fields).calls).done = true ∧
        text = (write limit (requestLine r.kind fields).calls).buf.bytes := by
  unfold requestEncode at h
  split at h
  · cases h
  · rename_i fields hfields
    dsimp only at h
    split_ifs at h with hdone
    exact ⟨fields, hfields, hdone, (Except.ok.inj h).symm⟩

/-- An encoded request is read back. -/
theorem requestRead_encode {limit : ℕ} {r : Request} {text : Bytes}
    (h : requestEncode limit r = .ok text) (hlength : text.length < 2 ^ 32) :
    requestRead text = .ok r := by
  obtain ⟨fields, hfields, hdone, rfl⟩ := requestEncode_eq h
  have hsays := document_written hdone hlength
  change document _ = .ok (.object (told _)) at hsays
  have hp : Proper ((("request", some (.scalar (.string (asciis r.kind.name)))) :: fields).map
      Prod.fst) := by
    rw [List.map_cons, encodePayload_names hfields]
    exact proper_members r.kind.arm
  have htag := member?_told hp List.mem_cons_self
  rw [requestRead, hsays]
  dsimp only
  rw [htag]
  exact decodeRequest_told hfields

/-! ## What a line may hold -/

def FlatAt (ms : Members) (name : String) : Prop := ∀ d, member? ms name = some d → Flat d

theorem table_of_flatAt {names : List String} {ms : Members}
    (hflat : ∀ name ∈ names, FlatAt ms name)
    (honce : OnlyOnce names ms) : Table names ms := by
  refine ⟨honce, fun m hm => ?_⟩
  obtain ⟨name, hname, -, hmember⟩ := honce.member? hm
  exact hflat name hname m.2 hmember

theorem ne_none_of_getStr {ms : Members} {name what : String} {text : Option Bytes}
    (h : getStr ms name true what = .ok text) : text ≠ none :=
  Option.isSome_iff_ne_none.1 (isSome_of_getStr h)

theorem decodeSubject_table {d : Doc} {s : Subject} (h : decodeSubject d = .ok s) :
    (∃ inner, d = .object inner ∧ Table ("subject" :: s.members) inner) ∧
      ∃ fields, encodeSubject s = .ok fields := by
  cases d with
  | object ms =>
    rw [decodeSubject] at h
    obtain ⟨tag, htag, h⟩ := bind_eq_ok.1 h
    have hflat : FlatAt ms "subject" := fun d hd => flat_of_getStr htag hd
    split_ifs at h
    · obtain ⟨name, hname, h⟩ := bind_eq_ok.1 h
      obtain ⟨_, hcheck, h⟩ := bind_eq_ok.1 h
      obtain rfl := Except.ok.inj h
      refine ⟨⟨ms, rfl, table_of_flatAt ?_ (checkMembers_iff.1 hcheck)⟩, _,
        if_neg (ne_none_of_getStr hname)⟩
      simpa [Subject.members] using ⟨hflat, fun d hd => flat_of_getStr hname hd⟩
    · obtain ⟨interface, hinterface, h⟩ := bind_eq_ok.1 h
      obtain ⟨address, haddress, h⟩ := bind_eq_ok.1 h
      obtain ⟨_, hcheck, h⟩ := bind_eq_ok.1 h
      obtain rfl := Except.ok.inj h
      refine ⟨⟨ms, rfl, table_of_flatAt ?_ (checkMembers_iff.1 hcheck)⟩, _,
        if_neg (not_or.2 ⟨ne_none_of_getStr hinterface, ne_none_of_getStr haddress⟩)⟩
      simpa [Subject.members] using ⟨hflat, fun d hd => flat_of_getStr hinterface hd,
        fun d hd => flat_of_getStr haddress hd⟩
    · obtain ⟨interface, hinterface, h⟩ := bind_eq_ok.1 h
      obtain ⟨destination, hdestination, h⟩ := bind_eq_ok.1 h
      obtain ⟨_, hcheck, h⟩ := bind_eq_ok.1 h
      obtain rfl := Except.ok.inj h
      refine ⟨⟨ms, rfl, table_of_flatAt ?_ (checkMembers_iff.1 hcheck)⟩, _,
        if_neg (not_or.2 ⟨ne_none_of_getStr hinterface, ne_none_of_getStr hdestination⟩)⟩
      simpa [Subject.members] using ⟨hflat, fun d hd => flat_of_getStr hinterface hd,
        fun d hd => flat_of_getStr hdestination hd⟩
  | null | bool _ | number _ | string _ | array _ => cases h

theorem decodeEap_table {d : Doc} {e : Eap} (h : decodeEap d = .ok e) :
    (∃ inner, d = .object inner ∧ Table eapMembers inner) ∧ e.method ≠ none ∧
    e.identity ≠ none := by
  cases d with
  | object ms =>
    rw [decodeEap] at h
    obtain ⟨method, hmethod, h⟩ := bind_eq_ok.1 h
    obtain ⟨identity, hidentity, h⟩ := bind_eq_ok.1 h
    obtain ⟨anonymousIdentity, hanonymous, h⟩ := bind_eq_ok.1 h
    obtain ⟨phase2, hphase, h⟩ := bind_eq_ok.1 h
    obtain ⟨caCert, hca, h⟩ := bind_eq_ok.1 h
    obtain ⟨clientCert, hclient, h⟩ := bind_eq_ok.1 h
    obtain ⟨_, hcheck, h⟩ := bind_eq_ok.1 h
    obtain rfl := Except.ok.inj h
    obtain ⟨hnodup, hnames⟩ := checkMembers_iff.1 hcheck
    have honce : OnlyOnce eapMembers ms := by
      refine ⟨hnodup, fun m hm => ?_⟩
      simpa [eapMembers] using hnames m hm
    refine ⟨⟨ms, rfl, table_of_flatAt ?_ honce⟩, ne_none_of_getStr hmethod,
      ne_none_of_getStr hidentity⟩
    simpa [eapMembers] using ⟨fun d hd => flat_of_getStr hmethod hd,
      fun d hd => flat_of_getStr hidentity hd, fun d hd => flat_of_getStr hanonymous hd,
      fun d hd => flat_of_getStr hphase hd, fun d hd => flat_of_getStr hca hd,
      fun d hd => flat_of_getStr hclient hd⟩
  | null | bool _ | number _ | string _ | array _ => cases h

theorem decodeEapMember_cases {ms : Members} {e : Option Eap} (h : decodeEapMember ms = .ok e) :
    (∀ d, member? ms "eap" = some d →
      d = .null ∨ ∃ inner, d = .object inner ∧ Table eapMembers inner) ∧
      ¬∃ e' ∈ e, e'.method = none ∨ e'.identity = none := by
  unfold decodeEapMember present at h
  cases hmember : member? ms "eap" with
  | none =>
    rw [hmember] at h
    obtain rfl := Except.ok.inj h
    exact ⟨fun d hd => (Option.some_ne_none d hd.symm).elim, fun ⟨_, he, _⟩ => by cases he⟩
  | some d =>
    rw [hmember] at h
    by_cases hnull : d = .null
    · subst hnull
      obtain rfl := Except.ok.inj h
      exact ⟨fun d hd => .inl (Option.some.inj hd).symm, fun ⟨_, he, _⟩ => by cases he⟩
    · have hread : (decodeEap d).map some = .ok e := by
        cases d <;> first | exact h | exact (hnull rfl).elim
      obtain ⟨e', he', rfl⟩ := map_eq_ok.1 hread
      obtain ⟨hinner, hmethod, hidentity⟩ := decodeEap_table he'
      refine ⟨fun d' hd' => .inr ?_, ?_⟩
      · rwa [← Option.some.inj hd']
      · rintro ⟨e, he, habsent⟩
        obtain rfl := Option.mem_some_iff.1 he
        exact habsent.elim hmethod hidentity

theorem decodePayload_cases {ms : Members} {what : String} {a : Arm} {p : a.Payload}
    (h : decodePayload ms what a = .ok p) (kind : String) :
    (∀ name ∈ a.members, name ≠ "subject" → name ≠ "eap" → FlatAt ms name) ∧
      ∃ fields, encodePayload kind a p = .ok fields := by
  have hstr : ∀ {name : String} {required : Bool} {text : Option Bytes},
      getStr ms name required what = .ok text →
        name ≠ "subject" → name ≠ "eap" → FlatAt ms name :=
    fun h _ _ d hd => flat_of_getStr h hd
  have hbool : ∀ {name : String} {required fallback b : Bool},
      getBool ms name required fallback what = .ok b →
        name ≠ "subject" → name ≠ "eap" → FlatAt ms name :=
    fun h _ _ d hd => flat_of_getBool h hd
  have hint : ∀ {name : String} {n : Option Int64}, getInt ms name false what = .ok n →
      name ≠ "subject" → name ≠ "eap" → FlatAt ms name :=
    fun h _ _ d hd => flat_of_getInt h hd
  have hstrs : ∀ {name : String} {items : List Bytes}, getStrs ms name false what = .ok items →
      name ≠ "subject" → name ≠ "eap" → FlatAt ms name :=
    fun h _ _ d hd => flat_of_getStrs h hd
  cases a with
  | bare => exact ⟨fun name hname => (List.not_mem_nil hname).elim, _, rfl⟩
  | apply =>
    rw [decodePayload] at h
    obtain ⟨confirm, h₁, h⟩ := bind_eq_ok.1 h
    obtain ⟨allowDisruption, h₂, h⟩ := bind_eq_ok.1 h
    obtain ⟨strandCredentials, h₃, h⟩ := bind_eq_ok.1 h
    obtain ⟨restartWedged, h₄, h⟩ := bind_eq_ok.1 h
    obtain ⟨noRollback, h₅, h⟩ := bind_eq_ok.1 h
    refine ⟨?_, _, rfl⟩
    simp only [Arm.members, List.forall_mem_cons]
    exact ⟨hint h₁, hstrs h₂, hstrs h₃, hstrs h₄, hstr h₅, fun _ hno => (List.not_mem_nil hno).elim⟩
  | explain =>
    rw [decodePayload] at h
    cases hmember : member? ms "subject" with
    | none =>
      rw [hmember] at h
      cases h
    | some d =>
      rw [hmember] at h
      obtain ⟨-, fields, hfields⟩ := decodeSubject_table h
      refine ⟨fun name hname hne => (hne (List.mem_singleton.1 hname)).elim,
        [("subject", some (.object (written fields)))], ?_⟩
      rw [encodePayload, hfields]
      rfl
  | interface | id | delete =>
    exact ⟨fun name hname => List.mem_singleton.1 hname ▸ hstr h, _, if_neg (ne_none_of_getStr h)⟩
  | profileSet => exact ⟨fun name hname => List.mem_singleton.1 hname ▸ hstr h, _, rfl⟩
  | wifiAdd =>
    rw [decodePayload] at h
    obtain ⟨ssid, h₁, h⟩ := bind_eq_ok.1 h
    obtain ⟨id, h₂, h⟩ := bind_eq_ok.1 h
    obtain ⟨passphrase, h₃, h⟩ := bind_eq_ok.1 h
    obtain ⟨proto, h₄, h⟩ := bind_eq_ok.1 h
    obtain ⟨hidden, h₅, h⟩ := bind_eq_ok.1 h
    obtain ⟨owe, h₆, h⟩ := bind_eq_ok.1 h
    obtain ⟨metric, h₇, h⟩ := bind_eq_ok.1 h
    obtain ⟨eap, h₈, h⟩ := bind_eq_ok.1 h
    obtain rfl := Except.ok.inj h
    constructor
    · simp only [Arm.members, List.forall_mem_cons]
      exact ⟨hstr h₁, hstr h₂, hstr h₃, hstr h₄, hbool h₅, hint h₇, fun _ hne => (hne rfl).elim,
        hbool h₆, fun _ hno => (List.not_mem_nil hno).elim⟩
    · exact ⟨_, (if_neg (ne_none_of_getStr h₁)).trans (if_neg (decodeEapMember_cases h₈).2)⟩
  | wifiConnect =>
    rw [decodePayload] at h
    obtain ⟨interface, h₁, h⟩ := bind_eq_ok.1 h
    obtain ⟨network, h₂, h⟩ := bind_eq_ok.1 h
    obtain rfl := Except.ok.inj h
    constructor
    · simp only [Arm.members, List.forall_mem_cons]
      exact ⟨hstr h₁, hstr h₂, fun _ hno => (List.not_mem_nil hno).elim⟩
    · exact ⟨_, (if_neg (ne_none_of_getStr h₁)).trans (if_neg (ne_none_of_getStr h₂))⟩
  | put | secretPut =>
    rw [decodePayload] at h
    obtain ⟨name, h₁, h⟩ := bind_eq_ok.1 h
    obtain ⟨text, h₂, h⟩ := bind_eq_ok.1 h
    obtain ⟨replace, h₃, h⟩ := bind_eq_ok.1 h
    obtain rfl := Except.ok.inj h
    constructor
    · simp only [Arm.members, List.forall_mem_cons]
      exact ⟨hstr h₁, hstr h₂, hbool h₃, fun _ hno => (List.not_mem_nil hno).elim⟩
    · exact ⟨_, (if_neg (ne_none_of_getStr h₁)).trans (if_neg (ne_none_of_getStr h₂))⟩
  | profileSave =>
    rw [decodePayload] at h
    obtain ⟨name, h₁, h⟩ := bind_eq_ok.1 h
    obtain ⟨replace, h₂, h⟩ := bind_eq_ok.1 h
    obtain rfl := Except.ok.inj h
    constructor
    · simp only [Arm.members, List.forall_mem_cons]
      exact ⟨hstr h₁, hbool h₂, fun _ hno => (List.not_mem_nil hno).elim⟩
    · exact ⟨_, if_neg (ne_none_of_getStr h₁)⟩
  | radioSet =>
    rw [decodePayload] at h
    obtain ⟨interface, h₁, h⟩ := bind_eq_ok.1 h
    obtain ⟨activate, h₂, h⟩ := bind_eq_ok.1 h
    obtain rfl := Except.ok.inj h
    constructor
    · simp only [Arm.members, List.forall_mem_cons]
      exact ⟨hstr h₁, hbool h₂, fun _ hno => (List.not_mem_nil hno).elim⟩
    · exact ⟨_, if_neg (ne_none_of_getStr h₁)⟩

theorem explain_of_subject {kind : RequestKind}
    (h : asciis "subject" ∈ ("request" :: kind.members).map asciis) : kind = .explain := by
  revert h
  cases kind <;> decide

theorem wifiAdd_of_eap {kind : RequestKind}
    (h : asciis "eap" ∈ ("request" :: kind.members).map asciis) : kind = .wifiAdd := by
  revert h
  cases kind <;> decide

/-- A request that decodes is defined by its members, and encodes. -/
theorem decodeRequest_defined {ms : Members} {r : Request} (h : decodeRequest ms = .ok r) :
    Defined r ms ∧ ∃ fields, encodePayload r.kind.name r.kind.arm r.payload = .ok fields := by
  rw [decodeRequest] at h
  obtain ⟨tag, htag, h⟩ := bind_eq_ok.1 h
  dsimp only at h
  split at h
  · cases h
  rename_i kind hkind
  obtain ⟨payload, hpayload, h⟩ := bind_eq_ok.1 h
  obtain ⟨_, hcheck, h⟩ := bind_eq_ok.1 h
  obtain rfl := Except.ok.inj h
  have honce := checkMembers_iff.1 hcheck
  obtain ⟨hflat, hfields⟩ := decodePayload_cases hpayload kind.name
  refine ⟨⟨honce, fun m hm hsubject heap => ?_, fun m hm hname => ?_, fun m hm hname => ?_⟩,
    hfields⟩
  · obtain ⟨name, hmem, hname, hmember⟩ := honce.member? hm
    rw [hname] at hsubject heap
    rcases List.mem_cons.1 hmem with rfl | hmem
    · exact flat_of_getStr htag hmember
    · rw [members_arm] at hmem
      exact hflat name hmem (fun heq => hsubject (congrArg asciis heq))
        (fun heq => heap (congrArg asciis heq)) m.2 hmember
  · obtain rfl := explain_of_subject (hname ▸ honce.2 m hm)
    obtain ⟨name, -, hname', hmember⟩ := honce.member? hm
    have hsubject : member? ms "subject" = some m.2 := by
      rw [← hmember, member?, member?, ← hname', hname]
    change decodePayload ms _ .explain = .ok payload at hpayload
    rw [decodePayload, hsubject] at hpayload
    obtain ⟨⟨inner, hinner, htable⟩, -⟩ := decodeSubject_table hpayload
    exact ⟨payload, inner, rfl, hinner, htable⟩
  · obtain rfl := wifiAdd_of_eap (hname ▸ honce.2 m hm)
    obtain ⟨name, -, hname', hmember⟩ := honce.member? hm
    have heap : member? ms "eap" = some m.2 := by
      rw [← hmember, member?, member?, ← hname', hname]
    change decodePayload ms _ .wifiAdd = .ok payload at hpayload
    rw [decodePayload] at hpayload
    obtain ⟨_, -, hpayload⟩ := bind_eq_ok.1 hpayload
    obtain ⟨_, -, hpayload⟩ := bind_eq_ok.1 hpayload
    obtain ⟨_, -, hpayload⟩ := bind_eq_ok.1 hpayload
    obtain ⟨_, -, hpayload⟩ := bind_eq_ok.1 hpayload
    obtain ⟨_, -, hpayload⟩ := bind_eq_ok.1 hpayload
    obtain ⟨_, -, hpayload⟩ := bind_eq_ok.1 hpayload
    obtain ⟨_, -, hpayload⟩ := bind_eq_ok.1 hpayload
    obtain ⟨e, he, -⟩ := bind_eq_ok.1 hpayload
    exact ⟨rfl, (decodeEapMember_cases he).1 m.2 heap⟩

/-- A request is read from an object. -/
theorem requestRead_eq {line : Bytes} {r : Request} (h : requestRead line = .ok r) :
    ∃ ms, document line = .ok (.object ms) ∧ decodeRequest ms = .ok r := by
  unfold requestRead at h
  split at h
  · cases h
  · rename_i ms hsays
    split_ifs at h
    exact ⟨ms, hsays, h⟩
  · cases h

/-! ## What can be written -/

def Subject.strings : Subject → List (Option Bytes)
  | .interface text => [text]
  | .address text text' | .route text text' => [text, text']

/-- The strings of an `eap`. -/
def Eap.strings (e : Eap) : List (Option Bytes) :=
  [e.method, e.identity, e.anonymousIdentity, e.phase2, e.caCert, e.clientCert]

/-- The texts a payload carries. -/
def Arm.strings : (a : Arm) → a.Payload → List (Option Bytes)
  | .bare, _ => []
  | .apply, a => (a.allowDisruption ++ (a.strandCredentials ++ a.restartWedged)).map some ++
      [a.noRollback]
  | .explain, s => s.strings
  | .interface, text | .id, text | .profileSet, text | .delete, text => [text]
  | .wifiAdd, w => [w.ssid, w.id, w.passphrase, w.proto] ++ (w.eap.map Eap.strings).getD []
  | .wifiConnect, c => [c.interface, c.network]
  | .put, p => [p.name, p.text]
  | .secretPut, p => [p.name, p.value]
  | .profileSave, p => [p.name]
  | .radioSet, r => [r.interface]

def AllUtf8 (strings : List (Option Bytes)) : Prop :=
  ∀ text ∈ strings, ∀ bytes ∈ text, Utf8 bytes

theorem AllUtf8.cons {text : Option Bytes} {strings : List (Option Bytes)}
    (h : AllUtf8 (text :: strings)) : (∀ bytes ∈ text, Utf8 bytes) ∧ AllUtf8 strings :=
  List.forall_mem_cons.1 h

theorem encodeSubject_fits {s : Subject} {fields : List Field} (h : encodeSubject s = .ok fields)
    (hutf : AllUtf8 s.strings) (room : ℕ) : ∀ f ∈ fields, f.Fits room := by
  cases s with
  | interface name =>
    rw [encodeSubject] at h
    split_ifs at h
    · cases h
    cases h
    obtain ⟨hname, -⟩ := hutf.cons
    simpa using ⟨fits_tag (clean_of_stored rfl), fits_str hname⟩
  | address interface address =>
    rw [encodeSubject] at h
    split_ifs at h
    · cases h
    cases h
    obtain ⟨hinterface, hutf⟩ := hutf.cons
    obtain ⟨haddress, -⟩ := hutf.cons
    simpa using ⟨fits_tag (clean_of_stored rfl), fits_str hinterface, fits_str haddress⟩
  | route interface destination =>
    rw [encodeSubject] at h
    split_ifs at h
    · cases h
    cases h
    obtain ⟨hinterface, hutf⟩ := hutf.cons
    obtain ⟨hdestination, -⟩ := hutf.cons
    simpa using ⟨fits_tag (clean_of_stored rfl), fits_str hinterface, fits_str hdestination⟩

theorem eapFields_fits {e : Eap} (hutf : AllUtf8 e.strings) (room : ℕ) :
    ∀ f ∈ eapFields e, f.Fits room := by
  obtain ⟨h₁, hutf⟩ := hutf.cons
  obtain ⟨h₂, hutf⟩ := hutf.cons
  obtain ⟨h₃, hutf⟩ := hutf.cons
  obtain ⟨h₄, hutf⟩ := hutf.cons
  obtain ⟨h₅, hutf⟩ := hutf.cons
  obtain ⟨h₆, -⟩ := hutf.cons
  simpa [eapFields] using ⟨fits_str h₁, fits_str h₂, fits_str h₃, fits_str h₄, fits_str h₅,
    fits_str h₆⟩

theorem encodePayload_fits {kind : String} {a : Arm} {p : a.Payload} {fields : List Field}
    (h : encodePayload kind a p = .ok fields) (hutf : AllUtf8 (a.strings p)) {room : ℕ}
    (hroom : 0 < room) : ∀ f ∈ fields, f.Fits room := by
  cases a with
  | bare =>
    cases h
    exact fun f hf => (List.not_mem_nil hf).elim
  | apply =>
    cases h
    obtain ⟨hlists, hno⟩ := List.forall_mem_append.1 hutf
    have hlist : ∀ bytes ∈ p.allowDisruption ++ (p.strandCredentials ++ p.restartWedged),
        Utf8 bytes := fun bytes hmem => hlists _ (List.mem_map_of_mem hmem) bytes rfl
    obtain ⟨hallow, hlist⟩ := List.forall_mem_append.1 hlist
    obtain ⟨hstrand, hrestart⟩ := List.forall_mem_append.1 hlist
    simpa using ⟨fits_int p.confirm, fits_strs hroom hallow, fits_strs hroom hstrand,
      fits_strs hroom hrestart, fits_str (hno _ List.mem_cons_self)⟩
  | explain =>
    obtain ⟨inner, hinner, rfl⟩ := map_eq_ok.1 h
    have hp : Proper (inner.map Prod.fst) := encodeSubject_names hinner ▸ proper_subject p
    simpa using fits_object hroom hp (encodeSubject_fits hinner hutf (room - 1))
  | interface | id | delete =>
    rw [encodePayload] at h
    split_ifs at h
    · cases h
    cases h
    simpa using fits_str hutf.cons.1
  | profileSet =>
    cases h
    simpa using fits_str hutf.cons.1
  | wifiAdd =>
    rw [encodePayload] at h
    split_ifs at h
    · cases h
    · cases h
    cases h
    obtain ⟨hssid, hutf⟩ := hutf.cons
    obtain ⟨hid, hutf⟩ := hutf.cons
    obtain ⟨hpassphrase, hutf⟩ := hutf.cons
    obtain ⟨hproto, heap⟩ := hutf.cons
    have hp : ∀ e, Proper ((eapFields e).map Prod.fst) := fun _ => proper_eap
    have hobject : Field.Fits room
        ("eap", p.eap.map fun e => .object (written (eapFields e))) := by
      rintro s hs
      obtain ⟨e, he, rfl⟩ := Option.map_eq_some_iff.1 hs
      rw [he] at heap
      exact ⟨hroom, fits_written (hp e) (eapFields_fits heap (room - 1))⟩
    simpa [wifiAddFields] using ⟨fits_str hssid, fits_str hid, fits_str hpassphrase,
      fits_str hproto, fits_flag p.hidden, fits_int p.metric, hobject, fits_flag p.owe⟩
  | wifiConnect =>
    rw [encodePayload] at h
    split_ifs at h
    · cases h
    · cases h
    cases h
    obtain ⟨hinterface, hutf⟩ := hutf.cons
    simpa using ⟨fits_str hinterface, fits_str hutf.cons.1⟩
  | put | secretPut =>
    rw [encodePayload] at h
    split_ifs at h
    · cases h
    · cases h
    cases h
    obtain ⟨hname, hutf⟩ := hutf.cons
    simpa using ⟨fits_str hname, fits_str hutf.cons.1, fits_flag p.replace⟩
  | profileSave =>
    rw [encodePayload] at h
    split_ifs at h
    · cases h
    cases h
    simpa using ⟨fits_str hutf.cons.1, fits_flag p.replace⟩
  | radioSet =>
    rw [encodePayload] at h
    split_ifs at h
    · cases h
    cases h
    simpa using ⟨fits_str hutf.cons.1, fits_bool p.activate⟩

/-- A payload of UTF-8 texts is encoded, where there is room. -/
theorem requestEncode_of_fields {r : Request} {fields : List Field}
    (h : encodePayload r.kind.name r.kind.arm r.payload = .ok fields)
    (hutf : AllUtf8 (r.kind.arm.strings r.payload)) :
    ∃ text, ∀ limit, text.length ≤ limit → requestEncode limit r = .ok text := by
  have hp : Proper ((("request", some (.scalar (.string (asciis r.kind.name)))) :: fields).map
      Prod.fst) := by
    rw [List.map_cons, encodePayload_names h]
    exact proper_members r.kind.arm
  have hfits : Fits maxDepth (requestLine r.kind fields).value :=
    ⟨by decide, fits_written hp (List.forall_mem_cons.2
      ⟨fits_tag (clean_name r.kind), encodePayload_fits h hutf (by decide)⟩)⟩
  refine ⟨render compact 0 (requestLine r.kind fields).value, fun limit hlimit => ?_⟩
  obtain ⟨hdone, htext⟩ := Writer.done_of_fits hfits hlimit
  rw [requestEncode, h]
  dsimp only
  rw [if_pos hdone, htext]

/-! ## Events -/

/-- An event with what it has to say. -/
def Event.Filled : Event → Prop
  | .observed summary => summary ≠ none
  | .drift interface summary action => interface ≠ none ∧ summary ≠ none ∧ action ≠ none
  | _ => True

def Event.strings : Event → List (Option Bytes)
  | .observed summary => [summary]
  | .reloaded _ diagnostics => [diagnostics]
  | .drift interface summary action => [interface, summary, action]
  | _ => []

def lineFields (wrapped : Bool) (e : Event) : List Field :=
  ("response", if wrapped then some (.scalar (.string (asciis "event"))) else none) ::
    ("event", some (.scalar (.string (asciis e.name)))) :: eventFields e

theorem proper_line (wrapped : Bool) : ∀ e : Event, Proper ((lineFields wrapped e).map Prod.fst)
  | .observed _ => (proper_of_checks rfl : Proper ["response", "event", "summary"])
  | .reloaded _ _ => (proper_of_checks rfl : Proper ["response", "event", "ok", "diagnostics"])
  | .drift _ _ _ =>
    (proper_of_checks rfl : Proper ["response", "event", "interface", "summary", "action"])
  | .confirmArmed _ => (proper_of_checks rfl : Proper ["response", "event", "seconds"])
  | .confirmResolved _ => (proper_of_checks rfl : Proper ["response", "event", "confirmed"])

theorem strOrEmpty_of_ne {text : Option Bytes} (h : text ≠ none) : strOrEmpty text = str text := by
  cases text with
  | none => exact (h rfl).elim
  | some bytes => rfl

theorem decodeEvent_told {e : Event} (hfilled : e.Filled) (wrapped : Bool) :
    decodeEvent (told (lineFields wrapped e)) = .ok e := by
  have hp := proper_line wrapped e
  set what := "this event" with hwhat
  have htag : ∀ name, e.name = name → Writer.cString (asciis name) = asciis name →
      getStr (told (lineFields wrapped e)) "event" true what = .ok (some (asciis name)) := by
    rintro name rfl hname
    rw [getStr_tag hp (List.mem_cons_of_mem _ List.mem_cons_self) true what, hname]
  cases e with
  | observed summary =>
    have hread : getStr _ "summary" true what = .ok summary :=
      getStr_told hp (by simp [lineFields, eventFields, strOrEmpty_of_ne hfilled])
        (isSome_of_ne hfilled true) what
    rw [decodeEvent, ← hwhat, htag "observed" rfl (by decide), hread]
    rfl
  | reloaded ok diagnostics =>
    have hread₁ : getBool _ "ok" true false what = .ok ok :=
      getBool_told hp (by simp [lineFields, eventFields]) true false what
    have hread₂ : getStr _ "diagnostics" false what = .ok diagnostics :=
      getStr_told hp (by simp [lineFields, eventFields]) (optional _) what
    rw [decodeEvent, ← hwhat, htag "reloaded" rfl (by decide), hread₁, hread₂]
    rfl
  | drift interface summary action =>
    obtain ⟨hinterface, hsummary, haction⟩ := hfilled
    have hread₁ : getStr _ "interface" true what = .ok interface :=
      getStr_told hp (by simp [lineFields, eventFields, strOrEmpty_of_ne hinterface])
        (isSome_of_ne hinterface true) what
    have hread₂ : getStr _ "summary" true what = .ok summary :=
      getStr_told hp (by simp [lineFields, eventFields, strOrEmpty_of_ne hsummary])
        (isSome_of_ne hsummary true) what
    have hread₃ : getStr _ "action" true what = .ok action :=
      getStr_told hp (by simp [lineFields, eventFields, strOrEmpty_of_ne haction])
        (isSome_of_ne haction true) what
    rw [decodeEvent, ← hwhat, htag "drift" rfl (by decide), hread₁, hread₂, hread₃]
    rfl
  | confirmArmed seconds =>
    have hread : getInt _ "seconds" true what = .ok (some seconds) :=
      getInt_told hp (by simp [lineFields, eventFields]) (fun _ => rfl) what
    rw [decodeEvent, ← hwhat, htag "confirm_armed" rfl (by decide), hread]
    rfl
  | confirmResolved confirmed =>
    have hread : getBool _ "confirmed" true false what = .ok confirmed :=
      getBool_told hp (by simp [lineFields, eventFields]) true false what
    rw [decodeEvent, ← hwhat, htag "confirm_resolved" rfl (by decide), hread]
    rfl

/-- A filled event is read back. -/
theorem eventRead_encode {limit : ℕ} {wrapped : Bool} {e : Event} {text : Bytes}
    (hfilled : e.Filled) (h : eventEncode limit wrapped e = .ok text)
    (hlength : text.length < 2 ^ 32) : eventRead text = .ok e := by
  unfold eventEncode at h
  dsimp only at h
  split_ifs at h with hdone
  obtain rfl := Except.ok.inj h
  have hsays := document_written hdone hlength
  change document _ = .ok (.object (told (lineFields wrapped e))) at hsays
  rw [eventRead, hsays]
  exact decodeEvent_told hfilled wrapped

/-- An event that is read is filled. -/
theorem filled_of_eventRead {line : Bytes} {e : Event} (h : eventRead line = .ok e) : e.Filled := by
  unfold eventRead at h
  split at h
  · cases h
  · rename_i ms hsays
    rw [decodeEvent] at h
    obtain ⟨tag, htag, h⟩ := bind_eq_ok.1 h
    split_ifs at h
    · obtain ⟨summary, hsummary, h⟩ := bind_eq_ok.1 h
      obtain rfl := Except.ok.inj h
      exact ne_none_of_getStr hsummary
    · obtain ⟨ok, -, h⟩ := bind_eq_ok.1 h
      obtain ⟨diagnostics, -, h⟩ := bind_eq_ok.1 h
      obtain rfl := Except.ok.inj h
      trivial
    · obtain ⟨interface, hinterface, h⟩ := bind_eq_ok.1 h
      obtain ⟨summary, hsummary, h⟩ := bind_eq_ok.1 h
      obtain ⟨action, haction, h⟩ := bind_eq_ok.1 h
      obtain rfl := Except.ok.inj h
      exact ⟨ne_none_of_getStr hinterface, ne_none_of_getStr hsummary, ne_none_of_getStr haction⟩
    · obtain ⟨seconds, -, h⟩ := bind_eq_ok.1 h
      obtain rfl := Except.ok.inj h
      trivial
    · obtain ⟨confirmed, -, h⟩ := bind_eq_ok.1 h
      obtain rfl := Except.ok.inj h
      trivial
  · cases h

theorem clean_eventName : ∀ e : Event, Clean (asciis e.name)
  | .observed _ => (clean_of_stored rfl : Clean (asciis "observed"))
  | .reloaded _ _ => (clean_of_stored rfl : Clean (asciis "reloaded"))
  | .drift _ _ _ => (clean_of_stored rfl : Clean (asciis "drift"))
  | .confirmArmed _ => (clean_of_stored rfl : Clean (asciis "confirm_armed"))
  | .confirmResolved _ => (clean_of_stored rfl : Clean (asciis "confirm_resolved"))

theorem eventFields_fits {e : Event} (hfilled : e.Filled) (hutf : AllUtf8 e.strings) (room : ℕ) :
    ∀ f ∈ eventFields e, f.Fits room := by
  cases e with
  | observed summary =>
    simpa [eventFields, strOrEmpty_of_ne hfilled] using fits_str hutf.cons.1
  | reloaded ok diagnostics =>
    simpa [eventFields] using ⟨fits_bool ok, fits_str hutf.cons.1⟩
  | drift interface summary action =>
    obtain ⟨hinterface, hsummary, haction⟩ := hfilled
    obtain ⟨h₁, hutf⟩ := hutf.cons
    obtain ⟨h₂, hutf⟩ := hutf.cons
    simpa [eventFields, strOrEmpty_of_ne hinterface, strOrEmpty_of_ne hsummary,
      strOrEmpty_of_ne haction] using ⟨fits_str h₁, fits_str h₂, fits_str hutf.cons.1⟩
  | confirmArmed seconds => simpa [eventFields] using fits_int (some seconds)
  | confirmResolved confirmed => simpa [eventFields] using fits_bool confirmed

/-- A filled event of UTF-8 texts is encoded, where there is room. -/
theorem eventEncode_of_filled {e : Event} (hfilled : e.Filled) (hutf : AllUtf8 e.strings)
    (wrapped : Bool) :
    ∃ text, ∀ limit, text.length ≤ limit → eventEncode limit wrapped e = .ok text := by
  have hresponse : Field.Fits 31
      ("response", if wrapped then some (.scalar (.string (asciis "event"))) else none) := by
    cases wrapped with
    | true => exact fits_tag (clean_of_stored rfl)
    | false => exact fun s hs => by cases hs
  have hfits : Fits maxDepth (eventLine wrapped e).value :=
    ⟨by decide, fits_written (proper_line wrapped e) (List.forall_mem_cons.2 ⟨hresponse,
      List.forall_mem_cons.2 ⟨fits_tag (clean_eventName e), eventFields_fits hfilled hutf 31⟩⟩)⟩
  refine ⟨render compact 0 (eventLine wrapped e).value, fun limit hlimit => ?_⟩
  obtain ⟨hdone, htext⟩ := Writer.done_of_fits hfits hlimit
  unfold eventEncode
  dsimp only
  rw [if_pos hdone, htext]

/-! ## Requests and events survive the wire -/

/-- What is written of a request is read as it. What is read as a request has the members of its
kind and no others, each once, at every level, and where its strings are UTF-8 it can be written
and read again. An event with the strings its kind needs is written and read alike. -/
theorem messages_survive :
    (∀ limit r text, requestEncode limit r = .ok text → text.length < 2 ^ 32 →
      requestRead text = .ok r) ∧
    (∀ line r, requestRead line = .ok r →
      (∃ ms, document line = .ok (.object ms) ∧ Defined r ms) ∧
      (AllUtf8 (r.kind.arm.strings r.payload) → ∃ text,
        (∀ limit, text.length ≤ limit → requestEncode limit r = .ok text) ∧
        (text.length < 2 ^ 32 → requestRead text = .ok r))) ∧
    (∀ limit wrapped e text, e.Filled → eventEncode limit wrapped e = .ok text →
      text.length < 2 ^ 32 → eventRead text = .ok e) ∧
    (∀ line e, eventRead line = .ok e → e.Filled ∧ (AllUtf8 e.strings → ∀ wrapped, ∃ text,
      (∀ limit, text.length ≤ limit → eventEncode limit wrapped e = .ok text) ∧
      (text.length < 2 ^ 32 → eventRead text = .ok e))) := by
  refine ⟨fun limit r text h hlength => requestRead_encode h hlength, fun line r h => ?_,
    fun limit wrapped e text hfilled h hlength => eventRead_encode hfilled h hlength,
    fun line e h => ?_⟩
  · obtain ⟨ms, hsays, hdecode⟩ := requestRead_eq h
    obtain ⟨hdefined, fields, hfields⟩ := decodeRequest_defined hdecode
    refine ⟨⟨ms, hsays, hdefined⟩, fun hutf => ?_⟩
    obtain ⟨text, hencode⟩ := requestEncode_of_fields hfields hutf
    exact ⟨text, hencode, requestRead_encode (hencode text.length le_rfl)⟩
  · have hfilled := filled_of_eventRead h
    refine ⟨hfilled, fun hutf wrapped => ?_⟩
    obtain ⟨text, hencode⟩ := eventEncode_of_filled hfilled hutf wrapped
    exact ⟨text, hencode, eventRead_encode hfilled (hencode text.length le_rfl)⟩

def applied : Request :=
  ⟨.apply, { confirm := some 60, allowDisruption := [asciis "eth0", asciis "eth1"]
             strandCredentials := [], restartWedged := [], noRollback := none }⟩

def appliedLine : Bytes :=
  asciis "\x7b\"request\":\"apply\",\"confirm\":60,\"allow_disruption\":[\"eth0\",\"eth1\"]," ++
    asciis "\"strand_credentials\":[],\"restart_wedged\":[]\x7d"

theorem applied_survives : requestRead appliedLine = .ok applied :=
  messages_survive.1 200 applied appliedLine (by decide +kernel) (by decide +kernel)

def unwritten : Request := ⟨.profileSet, some [0xff]⟩

theorem read_unwritten : requestRead
    (asciis "\x7b\"request\":\"profile_set\",\"name\":\"" ++ [0xff] ++ asciis "\"\x7d") =
      .ok unwritten := by
  have hparse : parse
      (asciis "\x7b\"request\":\"profile_set\",\"name\":\"" ++ [0xff] ++ asciis "\"\x7d") =
        .ok (docNodes 0 none none (.object [(asciis "request", .string (asciis "profile_set")),
          (asciis "name", .string [0xff])])) := by
    decide +kernel
  rw [requestRead, document_of_parse hparse]
  rfl

theorem unwritten_fails (limit : ℕ) (text : Bytes) : requestEncode limit unwritten ≠ .ok text := by
  intro h
  obtain ⟨fields, hfields, hdone, -⟩ := requestEncode_eq h
  obtain rfl : [("name", str (some [0xff]))] = fields := Except.ok.inj hfields
  obtain ⟨⟨-, -, -, -, hname, -⟩, -⟩ := Writer.text_of_script hdone
  have hutf : (escaped [0xff]).isSome = true := hname
  have hnot : (escaped [0xff]).isSome = false := by decide +kernel
  rw [hutf] at hnot
  cases hnot

/-- A summary that is absent is read as an empty one, a name that is not UTF-8 is read and cannot
be written, and a member an event does not define is passed over. -/
theorem not_every_message_survives :
    (∃ text, eventEncode 64 false (.observed none) = .ok text ∧
      eventRead text = .ok (.observed (some []))) ∧
    (∃ r, requestRead (asciis "\x7b\"request\":\"profile_set\",\"name\":\"" ++ [0xff] ++
        asciis "\"\x7d") = .ok r ∧ ∀ limit text, requestEncode limit r ≠ .ok text) ∧
    (∃ ms e, document (asciis
        "\x7b\"event\":\"confirm_resolved\",\"confirmed\":true,\"by\":1\x7d") = .ok (.object ms) ∧
      decodeEvent ms = .ok e ∧ ¬OnlyOnce ["event", "confirmed"] ms) := by
  refine ⟨⟨asciis "\x7b\"event\":\"observed\",\"summary\":\"\"\x7d", by decide +kernel,
    by decide +kernel⟩, ⟨unwritten, read_unwritten, unwritten_fails⟩, ?_⟩
  have hparse : parse
      (asciis "\x7b\"event\":\"confirm_resolved\",\"confirmed\":true,\"by\":1\x7d") =
        .ok (docNodes 0 none none (.object [(asciis "event", .string (asciis "confirm_resolved")),
          (asciis "confirmed", .bool true), (asciis "by", .number (asciis "1"))])) := by
    decide +kernel
  refine ⟨_, .confirmResolved true, document_of_parse hparse, rfl, fun honce => ?_⟩
  have hby := honce.2 (asciis "by", .number (asciis "1")) (by simp)
  exact absurd hby (by decide)

end Netcfgd.Proto
