import Netcfgd.Fallible
import Netcfgd.JsonDocument

/-!
# Members by name

What `ncfg_json_member` and the readers of `src/proto/common.c` make of an object. A `Field` is a
name and what is written under it, or nothing where the member is left out; `told` is what an
object written from fields says, and each reader gives back what the field of its name holds
(`member_told`, `getStr_told`, `getBool_told`, `getInt_told`, `getStrs_told`). A reader that
checks the names of an object accepts it exactly when every member has one of them, each once
(`checkMembers_iff`).
-/

namespace Netcfgd.Json

abbrev Bytes := List UInt8

abbrev Members := List (Bytes × Doc)

/-- `ncfg_json_member` : the first member of a name. -/
def member? (ms : Members) (name : String) : Option Doc :=
  (ms.find? fun m => m.1 = asciis name).map Prod.snd

def shown (bytes : Bytes) : String :=
  String.ofList ((bytes.takeWhile (· ≠ 0)).map fun c => Char.ofNat c.toNat)

/-! ## Fields -/

abbrev Field := String × Option Script

def written (fields : List Field) : List (Bytes × Script) :=
  fields.filterMap fun f => f.2.map fun s => (asciis f.1, s)

def said (s : Script) : Doc := .ofTree s.value

def told (fields : List Field) : Members := ofNamed (membersValue (written fields))

def Clean (bytes : Bytes) : Prop := ∀ c ∈ bytes, c ≠ 0 ∧ Plain c ∧ c < 0x80

def Proper (names : List String) : Prop :=
  (names.map asciis).Nodup ∧ ∀ name ∈ names, Clean (asciis name)

instance (c : UInt8) : Decidable (Plain c) := by
  unfold Plain
  infer_instance

instance (bytes : Bytes) : Decidable (Clean bytes) := List.decidableBAll _ bytes

instance (names : List String) : Decidable (Proper names) := by
  unfold Proper
  infer_instance

def cleanByte (c : UInt8) : Bool :=
  c != 0 && c != ascii '"' && !(c < 0x20) && c != ascii '\\' && c < 0x80

theorem clean_of_all {bytes : Bytes} (h : bytes.all cleanByte = true) : Clean bytes := by
  intro c hc
  have hbyte := List.all_eq_true.1 h c hc
  simp only [cleanByte, Bool.and_eq_true, bne_iff_ne, Bool.not_eq_true', decide_eq_false_iff_not,
    decide_eq_true_eq] at hbyte
  obtain ⟨⟨⟨⟨hzero, hquote⟩, hlow⟩, hslash⟩, hhigh⟩ := hbyte
  exact ⟨hzero, ⟨hquote, hlow, hslash⟩, hhigh⟩

def apart : List Bytes → Bool
  | [] => true
  | text :: texts => !texts.elem text && apart texts

theorem apart_nodup : ∀ {texts : List Bytes}, apart texts = true → texts.Nodup
  | [], _ => List.nodup_nil
  | text :: texts, h => by
    simp only [apart, Bool.and_eq_true, Bool.not_eq_true'] at h
    refine List.nodup_cons.2 ⟨fun hmem => ?_, apart_nodup h.2⟩
    simp [hmem] at h

theorem asciis_of_cleanByte {text : String} (h : (stored text).all cleanByte = true) :
    asciis text = stored text :=
  asciis_eq_stored (List.all_eq_true.2 fun c hc =>
    (Bool.and_eq_true_iff.1 (List.all_eq_true.1 h c hc)).2)

theorem clean_of_stored {text : String} (h : (stored text).all cleanByte = true) :
    Clean (asciis text) :=
  asciis_of_cleanByte h ▸ clean_of_all h

theorem proper_of_checks {names : List String}
    (h : (apart (names.map stored) && names.all fun name => (stored name).all cleanByte) = true) :
    Proper names := by
  simp only [Bool.and_eq_true, List.all_eq_true (l := names)] at h
  refine ⟨?_, fun name hname => clean_of_stored (h.2 name hname)⟩
  rw [List.map_congr_left fun name hname => asciis_of_cleanByte (h.2 name hname)]
  exact apart_nodup h.1

theorem nodup_of_apart {names : List String}
    (h : (apart (names.map stored) && names.all fun name => (stored name).all cleanByte) = true) :
    (names.map asciis).Nodup :=
  (proper_of_checks h).1

theorem told_cons (f : Field) (rest : List Field) (h : ∀ c ∈ asciis f.1, c ≠ 0) :
    told (f :: rest) = (f.2.map fun s => (asciis f.1, said s)).toList ++ told rest := by
  obtain ⟨name, value⟩ := f
  cases value with
  | none => rfl
  | some s =>
    have hname : Writer.cString (asciis name) = asciis name := cString_eq h
    rw [told, written, List.filterMap_cons]
    simp only [Option.map_some, membersValue, ofNamed, hname]
    rfl

theorem Proper.tail {name : String} {names : List String} (h : Proper (name :: names)) :
    Proper names :=
  ⟨(List.nodup_cons.1 h.1).2, fun n hn => h.2 n (List.mem_cons_of_mem _ hn)⟩

theorem Proper.clean {name : String} {names : List String} (h : Proper names)
    (hname : name ∈ names) :
    ∀ c ∈ asciis name, c ≠ 0 :=
  fun c hc => (h.2 name hname c hc).1

theorem name_of_told : ∀ {fields : List Field}, Proper (fields.map Prod.fst) →
    ∀ m ∈ told fields, ∃ f ∈ fields, m.1 = asciis f.1 ∧ f.2.map said = some m.2
  | [], _, m, hm => by cases hm
  | (name, value) :: rest, h, m, hm => by
    rw [told_cons _ _ (h.clean List.mem_cons_self), List.mem_append] at hm
    rcases hm with hm | hm
    · cases value with
      | none => cases hm
      | some s =>
        obtain rfl := List.mem_singleton.1 hm
        exact ⟨_, List.mem_cons_self, rfl, rfl⟩
    · obtain ⟨f, hf, hname⟩ := name_of_told h.tail m hm
      exact ⟨f, List.mem_cons_of_mem _ hf, hname⟩

theorem member?_append (ms ms' : Members) (name : String) :
    member? (ms ++ ms') name = (member? ms name).or (member? ms' name) := by
  rw [member?, member?, member?, List.find?_append, Option.map_or]

theorem member?_eq_none {ms : Members} {name : String} (h : ∀ m ∈ ms, m.1 ≠ asciis name) :
    member? ms name = none := by
  rw [member?, List.find?_eq_none.2 fun m hm => by simpa using h m hm]
  rfl

theorem member?_told : ∀ {fields : List Field}, Proper (fields.map Prod.fst) →
    ∀ {name : String} {value : Option Script}, (name, value) ∈ fields →
      member? (told fields) name = value.map said
  | [], _, _, _, hmem => by cases hmem
  | (first, value') :: rest, h, name, value, hmem => by
    have hfirst : asciis first ∉ (rest.map Prod.fst).map asciis := (List.nodup_cons.1 h.1).1
    rw [told_cons _ _ (h.clean List.mem_cons_self), member?_append]
    rcases List.mem_cons.1 hmem with heq | hrest
    · -- nothing after it has the name
      obtain ⟨rfl, rfl⟩ := Prod.mk.inj heq
      have hnone : member? (told rest) name = none := by
        refine member?_eq_none fun m hm hname => hfirst ?_
        obtain ⟨f, hf, hfname, -⟩ := name_of_told h.tail m hm
        rw [← hname, hfname]
        exact List.mem_map_of_mem (List.mem_map_of_mem hf)
      rw [hnone, Option.or_none]
      cases value with
      | none => rfl
      | some s => simp [member?]
    · have hother : asciis first ≠ asciis name := fun heq => hfirst <| by
        rw [heq]
        exact List.mem_map_of_mem (List.mem_map_of_mem hrest)
      have hnone : member? ((value'.map fun s => (asciis first, said s)).toList) name = none := by
        refine member?_eq_none fun m hm => ?_
        cases value' with
        | none => cases hm
        | some s =>
          obtain rfl := List.mem_singleton.1 hm
          exact hother
      rw [hnone, Option.none_or]
      exact member?_told h.tail hrest

/-! ## Readers -/

def present (ms : Members) (name : String) : Option Doc :=
  match member? ms name with
  | some .null => none
  | other => other

def absent (required : Bool) (name what : String) : Except String Unit :=
  if required then .error s!"{what} is missing `{name}`" else .ok ()

/-- `ncfg_proto_get_str`. -/
def getStr (ms : Members) (name : String) (required : Bool) (what : String) :
    Except String (Option Bytes) :=
  match present ms name with
  | none => (absent required name what).map fun _ => none
  | some (.string bytes) => .ok (some bytes)
  | some _ => .error s!"`{name}` on {what} is not a string"

/-- `ncfg_proto_get_bool`. -/
def getBool (ms : Members) (name : String) (required fallback : Bool) (what : String) :
    Except String Bool :=
  match present ms name with
  | none => (absent required name what).map fun _ => fallback
  | some (.bool b) => .ok b
  | some _ => .error s!"`{name}` on {what} is not true or false"

/-- `ncfg_proto_get_int` : the number is asked for with two fallbacks, which differ where it is
not a whole number of 64 bits. -/
def getInt (ms : Members) (name : String) (required : Bool) (what : String) :
    Except String (Option Int64) :=
  match present ms name with
  | none => (absent required name what).map fun _ => none
  | some (.number text) =>
    let low := jsonInt { type := .number, value := text } (-2 ^ 63)
    let high := jsonInt { type := .number, value := text } (2 ^ 63 - 1)
    if low ≠ high then .error s!"`{name}` on {what} is not a whole number this can hold"
    else .ok (some (Int64.ofInt low))
  | some _ => .error s!"`{name}` on {what} is not a number"

/-- `ncfg_json_string` of an item of a list. -/
def itemStr (name what : String) : Doc → Except String Bytes
  | .string bytes => .ok bytes
  | _ => .error s!"`{name}` on {what} holds something that is not a string"

/-- `ncfg_proto_get_strs`. -/
def getStrs (ms : Members) (name : String) (required : Bool) (what : String) :
    Except String (List Bytes) :=
  match present ms name with
  | none => (absent required name what).map fun _ => []
  | some (.array items) => items.mapM (itemStr name what)
  | some _ => .error s!"`{name}` on {what} is not a list"

/-- `ncfg_proto_check_members` on a request : a member is known where it is the first of one of the
names, so a second of one name is nobody's. The first one that is not is named. -/
def checkMembers (ms : Members) (names : List String) (what : String) : Except String Unit :=
  match ms.mapIdx (fun i m => (i, m.1)) |>.find? fun (i, _) =>
      ¬names.any fun name => ms.findIdx? (fun m => m.1 = asciis name) = some i with
  | none => .ok ()
  | some (_, key) => .error s!"unknown member `{shown key}` on {what}"

/-! ## What the readers give back -/

def str (text : Option Bytes) : Option Script := text.map fun bytes => .scalar (.stringBytes bytes)

def int (n : Option Int64) : Option Script := n.map fun n => .scalar (.int n)

def flag (b : Bool) : Option Script := if b then some (.scalar (.bool true)) else none

def strs (items : List Bytes) : Option Script :=
  some (.array (items.map fun bytes => .scalar (.stringBytes bytes)))

section

variable {fields : List Field} (h : Proper (fields.map Prod.fst)) {name : String}
include h

theorem getStr_told {text : Option Bytes} (hmem : (name, str text) ∈ fields) {required : Bool}
    (hreq : required = true → text.isSome = true) (what : String) :
    getStr (told fields) name required what = .ok text := by
  rw [getStr, present, member?_told h hmem]
  cases text with
  | some bytes => rfl
  | none =>
    cases required with
    | false => rfl
    | true => cases hreq rfl

theorem getBool_flag {b : Bool} (hmem : (name, flag b) ∈ fields) (what : String) :
    getBool (told fields) name false false what = .ok b := by
  rw [getBool, present, member?_told h hmem]
  cases b <;> rfl

theorem getBool_told {b : Bool} (hmem : (name, some (.scalar (.bool b))) ∈ fields)
    (required fallback : Bool) (what : String) :
    getBool (told fields) name required fallback what = .ok b := by
  rw [getBool, present, member?_told h hmem]
  rfl

theorem getInt_told {n : Option Int64} (hmem : (name, int n) ∈ fields) {required : Bool}
    (hreq : required = true → n.isSome = true) (what : String) :
    getInt (told fields) name required what = .ok n := by
  rw [getInt, present, member?_told h hmem]
  cases n with
  | some n =>
    have hread : ∀ fallback, jsonInt { type := .number, value := decimal n.toInt } fallback =
        n.toInt := jsonInt_decimal rfl rfl n.le_toInt n.toInt_lt
    change (if jsonInt { type := .number, value := decimal n.toInt } (-2 ^ 63) ≠
        jsonInt { type := .number, value := decimal n.toInt } (2 ^ 63 - 1) then _
      else Except.ok (some (Int64.ofInt (jsonInt { type := .number, value := decimal n.toInt }
        (-2 ^ 63))))) = _
    rw [hread, hread, if_neg (by simp), Int64.ofInt_toInt]
  | none =>
    cases required with
    | false => rfl
    | true => cases hreq rfl

theorem getStrs_told {items : List Bytes} (hmem : (name, strs items) ∈ fields) (required : Bool)
    (what : String) : getStrs (told fields) name required what = .ok items := by
  have hitems : ∀ l : List Bytes,
      (ofTrees (itemsValue (l.map fun bytes => .scalar (.stringBytes bytes)))).mapM
        (itemStr name what) = .ok l := by
    intro l
    induction l with
    | nil => rfl
    | cons bytes rest ih =>
      rw [List.map_cons, itemsValue, ofTrees, List.mapM_cons, ih]
      rfl
  rw [getStrs, present, member?_told h hmem]
  exact hitems items

end

/-! ## Only the names of a table, each once -/

/-- Every member has a name of the table, and no two have the same. -/
def OnlyOnce (names : List String) (ms : Members) : Prop :=
  (ms.map Prod.fst).Nodup ∧ ∀ m ∈ ms, m.1 ∈ names.map asciis

variable {ms : Members}

theorem findIdx?_name {name : Bytes} {i : ℕ} :
    ms.findIdx? (fun m => m.1 = name) = some i ↔
      ∃ h : i < ms.length, ms[i].1 = name ∧ ∀ j (hj : j < i), ms[j].1 ≠ name := by
  simp [List.findIdx?_eq_some_iff_getElem]

theorem checkMembers_iff {names : List String} {what : String} :
    checkMembers ms names what = .ok () ↔ OnlyOnce names ms := by
  have hnone : checkMembers ms names what = .ok () ↔ ∀ i (h : i < ms.length), ∃ name ∈ names,
      ms.findIdx? (fun m => m.1 = asciis name) = some i := by
    unfold checkMembers
    constructor
    · intro hok i hi
      split at hok
      · rename_i hfind
        have hmem : (i, ms[i].1) ∈ ms.mapIdx fun i m => (i, m.1) :=
          List.mem_mapIdx.2 ⟨i, hi, rfl⟩
        simpa using List.find?_eq_none.1 hfind _ hmem
      · cases hok
    · intro hall
      have hfind : (ms.mapIdx fun i m => (i, m.1)).find? (fun (i, _) =>
          ¬names.any fun name => ms.findIdx? (fun m => m.1 = asciis name) = some i) = none := by
        refine List.find?_eq_none.2 fun p hp => ?_
        obtain ⟨i, hi, rfl⟩ := List.mem_mapIdx.1 hp
        simpa using hall i hi
      rw [hfind]
  rw [hnone]
  constructor
  · intro hall
    refine ⟨?_, fun m hm => ?_⟩
    · -- a second member of a name is the first of none
      rw [List.Nodup, List.pairwise_map, List.pairwise_iff_getElem]
      intro i j hi hj hij heq
      obtain ⟨name, -, hfirst⟩ := hall j hj
      obtain ⟨_, hname, hbefore⟩ := findIdx?_name.1 hfirst
      exact hbefore i hij (heq.trans hname)
    · obtain ⟨i, hi, rfl⟩ := List.mem_iff_getElem.1 hm
      obtain ⟨name, hname, hfirst⟩ := hall i hi
      obtain ⟨_, heq, _⟩ := findIdx?_name.1 hfirst
      rw [heq]
      exact List.mem_map_of_mem hname
  · rintro ⟨hnodup, hnames⟩ i hi
    obtain ⟨name, hname, heq⟩ := List.mem_map.1 (hnames _ (List.getElem_mem hi))
    refine ⟨name, hname, findIdx?_name.2 ⟨hi, heq.symm, fun j hj hsame => ?_⟩⟩
    rw [List.Nodup, List.pairwise_map, List.pairwise_iff_getElem] at hnodup
    exact hnodup j i (hj.trans hi) hi hj (hsame.trans heq)

theorem sublist_told : ∀ {fields : List Field}, Proper (fields.map Prod.fst) →
    List.Sublist ((told fields).map Prod.fst) ((fields.map Prod.fst).map asciis)
  | [], _ => List.Sublist.refl _
  | (name, value) :: rest, h => by
    have hrest := sublist_told h.tail
    rw [told_cons _ _ (h.clean List.mem_cons_self), List.map_append]
    cases value with
    | none => exact hrest.cons _
    | some s => exact hrest.cons_cons _

theorem onlyOnce_told {fields : List Field} (h : Proper (fields.map Prod.fst)) :
    OnlyOnce (fields.map Prod.fst) (told fields) := by
  have hsub := sublist_told h
  exact ⟨hsub.nodup h.1, fun m hm => hsub.subset (List.mem_map_of_mem hm)⟩

theorem OnlyOnce.member? {names : List String} (h : OnlyOnce names ms) {m : Bytes × Doc}
    (hm : m ∈ ms) : ∃ name ∈ names, m.1 = asciis name ∧ member? ms name = some m.2 := by
  obtain ⟨name, hname, heq⟩ := List.mem_map.1 (h.2 m hm)
  refine ⟨name, hname, heq.symm, ?_⟩
  cases hfind : ms.find? fun m => m.1 = asciis name with
  | none =>
    have hno := List.find?_eq_none.1 hfind m hm
    simp [heq] at hno
  | some m' =>
    have hname' : m'.1 = asciis name := by simpa using List.find?_some hfind
    have hsame : m' = m := (List.inj_on_of_nodup_map h.1) (List.mem_of_find?_eq_some hfind) hm
      (hname'.trans heq)
    rw [Json.member?, hfind, hsame]
    rfl

/-! ## What the readers take -/

def Flat : Doc → Prop
  | .object _ => False
  | .array items => ∀ d ∈ items, ∃ bytes, d = .string bytes
  | _ => True

theorem flat_of_getStr {name what : String} {required : Bool} {text : Option Bytes}
    (h : getStr ms name required what = .ok text) {d : Doc} (hd : member? ms name = some d) :
    Flat d := by
  rw [getStr, present, hd] at h
  cases d <;> trivial

theorem flat_of_getBool {name what : String} {required fallback b : Bool}
    (h : getBool ms name required fallback what = .ok b) {d : Doc} (hd : member? ms name = some d) :
    Flat d := by
  rw [getBool, present, hd] at h
  cases d <;> trivial

theorem flat_of_getInt {name what : String} {required : Bool} {n : Option Int64}
    (h : getInt ms name required what = .ok n) {d : Doc} (hd : member? ms name = some d) :
    Flat d := by
  rw [getInt, present, hd] at h
  cases d <;> trivial

theorem itemStr_eq_ok {name what : String} {d : Doc} {bytes : Bytes}
    (h : itemStr name what d = .ok bytes) : d = .string bytes := by
  cases d with
  | string text => rw [Except.ok.inj h]
  | null | bool _ | number _ | array _ | object _ => cases h

theorem strings_of_mapM {name what : String} {items : List Doc} {strings : List Bytes}
    (h : items.mapM (itemStr name what) = .ok strings) : items = strings.map .string := by
  have hall := mapM_eq_ok.1 h
  clear h
  induction hall with
  | nil => rfl
  | cons hitem _ ih => rw [itemStr_eq_ok hitem, ih, List.map_cons]

theorem flat_of_getStrs {name what : String} {required : Bool}
    {strings : List Bytes} (h : getStrs ms name required what = .ok strings) {d : Doc}
    (hd : member? ms name = some d) : Flat d := by
  rw [getStrs, present, hd] at h
  cases d with
  | array items =>
    rw [strings_of_mapM h]
    intro d hmem
    obtain ⟨bytes, -, rfl⟩ := List.mem_map.1 hmem
    exact ⟨bytes, rfl⟩
  | null | bool _ | number _ | string _ => trivial
  | object _ => cases h

theorem isSome_of_getStr {name what : String} {text : Option Bytes}
    (h : getStr ms name true what = .ok text) : text.isSome = true := by
  unfold getStr at h
  split at h
  · cases h
  · obtain rfl := Except.ok.inj h
    rfl
  · cases h

/-! ## Fields that can be written -/

theorem utf8Step_ascii {c : UInt8} (h : c < 0x80) (rest : List UInt8) : utf8Step c rest = 1 := by
  unfold utf8Step
  rw [if_pos h]

theorem escaped_clean : ∀ {bytes : Bytes}, Clean bytes → escaped bytes = some bytes
  | [], _ => by rw [escaped]
  | c :: rest, h => by
    obtain ⟨-, ⟨hquote, hcontrol, hslash⟩, hascii⟩ := h c List.mem_cons_self
    have hrest := escaped_clean fun c' hc' => h c' (List.mem_cons_of_mem _ hc')
    have hne : ∀ c' : UInt8, c' < 0x20 → c ≠ c' := fun c' hc' heq => hcontrol (heq ▸ hc')
    have hshort : shortForm c = none := by
      rw [shortForm, if_neg hquote, if_neg hslash, if_neg (hne _ (by decide)),
        if_neg (hne _ (by decide)), if_neg (hne _ (by decide)), if_neg (hne _ (by decide)),
        if_neg (hne _ (by decide))]
    rw [escaped, escape, hshort, utf8Step_ascii hascii]
    dsimp only
    rw [if_neg hcontrol]
    dsimp only
    rw [List.drop_zero, hrest]
    rfl

def Utf8 (bytes : Bytes) : Prop := (escaped bytes).isSome = true

def Field.Fits (room : ℕ) (f : Field) : Prop := ∀ s, f.2 = some s → Json.Fits room s.value

variable {room : ℕ}

theorem fits_tag {name : String} {text : Bytes} (h : Clean text) :
    Field.Fits room (name, some (.scalar (.string text))) := by
  rintro s hs
  cases hs
  change (escaped (Writer.cString text)).isSome = true
  rw [cString_eq fun c hc => (h c hc).1, escaped_clean h]
  rfl

theorem fits_str {name : String} {text : Option Bytes} (h : ∀ bytes ∈ text, Utf8 bytes) :
    Field.Fits room (name, str text) := by
  rintro s hs
  obtain ⟨bytes, hbytes, rfl⟩ := Option.map_eq_some_iff.1 hs
  exact h bytes hbytes

theorem fits_int {name : String} (n : Option Int64) :
    Field.Fits room (name, int n) := by
  rintro s hs
  obtain ⟨k, -, rfl⟩ := Option.map_eq_some_iff.1 hs
  trivial

theorem fits_bool {name : String} (b : Bool) :
    Field.Fits room (name, some (.scalar (.bool b))) := by
  rintro s hs
  cases hs
  trivial

theorem fits_flag {name : String} (b : Bool) : Field.Fits room (name, flag b) := by
  cases b with
  | true => exact fits_bool true
  | false => exact fun s hs => by cases hs

theorem fits_strs {name : String} {items : List Bytes} (hroom : 0 < room)
    (h : ∀ bytes ∈ items, Utf8 bytes) : Field.Fits room (name, strs items) := by
  have hitems : ∀ l : List Bytes, (∀ bytes ∈ l, Utf8 bytes) →
      FitsItems (room - 1) (itemsValue (l.map fun bytes => .scalar (.stringBytes bytes))) := by
    intro l hl
    induction l with
    | nil => trivial
    | cons bytes rest ih =>
      exact ⟨hl bytes List.mem_cons_self, ih fun b hb => hl b (List.mem_cons_of_mem _ hb)⟩
  rintro s hs
  cases hs
  exact ⟨hroom, hitems items h⟩

theorem fits_written : ∀ {fields : List Field}, Proper (fields.map Prod.fst) → ∀ {room : ℕ},
    (∀ f ∈ fields, Field.Fits room f) → FitsMembers room (membersValue (written fields))
  | [], _, _, _ => trivial
  | (name, value) :: rest, h, room, hfits => by
    have hrest := fits_written h.tail fun f hf => hfits f (List.mem_cons_of_mem _ hf)
    cases value with
    | none => exact hrest
    | some s =>
      refine ⟨?_, hfits _ List.mem_cons_self s rfl, hrest⟩
      rw [cString_eq (h.clean List.mem_cons_self), escaped_clean (h.2 name List.mem_cons_self)]
      rfl

theorem fits_object {name : String} {fields : List Field} (hroom : 0 < room)
    (hp : Proper (fields.map Prod.fst)) (h : ∀ f ∈ fields, f.Fits (room - 1)) :
    Field.Fits room (name, some (.object (written fields))) := by
  rintro s hs
  cases hs
  exact ⟨hroom, fits_written hp h⟩

end Netcfgd.Json
