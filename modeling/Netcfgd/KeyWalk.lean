import Netcfgd.KeyScopes

/-!
# The keys of a document

`compile/walk.c` : every key of the blocks of a document, with its path within its block, the value
as it was written, and whether it may travel. The path is put together in a buffer of 160 bytes. A
key whose path does not fit is withheld, but a sub-block whose path does not fit, and a hook whose
path does not, are passed over : the walk reports all there is exactly where no hook is so deep, and
no sub-block that holds anything (`walk_reports_all`).
-/

namespace Netcfgd.KeyWalk

open Netcfgd.KeyScopes

/-! ## The tree and the reports -/

/-- `ncfg_span_t`, as an offset and a length. -/
structure Span where
  offset : ℕ
  length : ℕ
  deriving DecidableEq, Repr

/-- `ncfg_ast_item_t`, with where its parts were written. -/
inductive Item
  | assignment (key : Text) (span value : Span)
  | block (head : Text) (label : Option Text) (span : Span) (items : List Item)
  | hook (phase : Text) (span : Span)
  | incl (span : Span)

/-- `ncfg_withheld_t`. -/
inductive Withheld
  | program | hostPrivate | privileged | unregistered | unknownBlock | plaintext
  deriving DecidableEq, Repr

/-- `ncfg_walk_item_t`. -/
structure Report where
  withheld : Option Withheld
  /-- `none` where this build does not know the block. -/
  block : Option Block
  blockName : Text
  label : Option Text
  path : Text
  value : Text := []
  scope : Scope := .hostPrivate
  kind : Option ℕ := none
  span : Span
  deriving DecidableEq, Repr

/-! ## The walk -/

/-- `WALK_PATH_MAX`. -/
def walkPathMax : ℕ := 160

/-- `path_push`. -/
def pathPush (path name : Text) : Option Text :=
  if path.length + name.length + (if path = [] then 0 else 1) + 1 ≤ walkPathMax then
    some (if path = [] then name else path ++ '.' :: name)
  else none

/-- `leaf_of`. -/
def leafOf (path : Text) : Text := (path.reverse.takeWhile (· ≠ '.')).reverse

/-- `names_a_credential`. -/
def namesACredential (path : Text) : Bool :=
  leafOf path ∈ ["ca_cert".toList, "client_cert".toList, "private_key".toList]

/-- `names_a_secret`. -/
def namesASecret (path : Text) : Bool :=
  leafOf path ∈
    ["psk".toList, "password".toList, "preshared_key".toList, "roaming_key".toList]

/-- `is_secret_reference`. -/
def isSecretReference (value : Text) : Bool :=
  "@secret:".toList.isPrefixOf (if value.head? = some '"' then value.drop 1 else value)

def Span.of (s : Span) (text : Text) : Text := (text.drop s.offset).take s.length

structure Within where
  text : Text
  block : Block
  name : Text
  label : Option Text

/-- `walk_assignment`. -/
def walkAssignment (w : Within) (path : Text) (span value : Span) : Report :=
  let written := value.of w.text
  let scope := scopeOf w.block path
  let kind := kindOf w.block path
  { withheld :=
      if scope = .hostPrivate then some .hostPrivate
      else if namesACredential path && !isSecretReference written then some .privileged
      else if namesASecret path && !isSecretReference written then some .plaintext
      else if kind.isNone then some .unregistered
      else none
    block := w.block, blockName := w.name, label := w.label, path, value := written, scope, kind,
    span }

def walkOver (w : Within) (path : Text) (span : Span) : Report :=
  { withheld := some .unregistered, block := w.block, blockName := w.name, label := w.label, path,
    span }

/-- `walk_program`. -/
def walkProgram (w : Within) (path : Text) (span : Span) : Report :=
  { withheld := some .program, block := w.block, blockName := w.name, label := w.label, path, span }

mutual

/-- The body of the loop of `walk_items`. -/
def walkItem (w : Within) (path : Text) : Item → List Report
  | .assignment key span value =>
    match pathPush path key with
    | some p => [walkAssignment w p span value]
    | none => [walkOver w path span]
  | .block head _ _ items =>
    match pathPush path head with
    | some p => walkItems w p items
    | none => []
  | .hook phase span =>
    match pathPush path phase with
    | some p => [walkProgram w p span]
    | none => []
  | .incl span => [walkProgram w path span]

/-- `walk_items`. -/
def walkItems (w : Within) (path : Text) : List Item → List Report
  | [] => []
  | i :: is => walkItem w path i ++ walkItems w path is

end

/-- `walk_block`, and what `ncfg_walk` does of the other items of a file. -/
def walkTop (text : Text) : Item → List Report
  | .block head label span items =>
    match blockFromName head with
    | some block => walkItems ⟨text, block, head, label⟩ [] items
    | none =>
      [{ withheld := some .unknownBlock, block := none, blockName := head, label,
         path := [], span }]
  | .incl span =>
    [{ withheld := some .program, block := none, blockName := [], label := none, path := [], span }]
  | .assignment .. | .hook .. => []

/-- `ncfg_walk` of a text, from what it parses to : what is reported to a visit that does not ask to
stop. -/
def walk (text : Text) (file : List Item) : List Report := file.flatMap (walkTop text)

/-! ## What there is to report -/

/-- A thing that is nested in a block, by where it was written. -/
inductive Thing
  | key (span : Span)
  | program (span : Span)
  | unknown (span : Span)
  deriving DecidableEq, Repr

/-- What of the file a report is about. -/
def Report.thing (r : Report) : Thing :=
  if r.withheld = some .program then .program r.span
  else if r.withheld = some .unknownBlock then .unknown r.span
  else .key r.span

mutual

def Item.things : Item → List Thing
  | .assignment _ span _ => [.key span]
  | .block _ _ _ items => thingsIn items
  | .hook _ span | .incl span => [.program span]

def thingsIn : List Item → List Thing
  | [] => []
  | i :: is => i.things ++ thingsIn is

end

/-- The same of the items of a file : an unknown block is one thing, and what stands outside a block
is none but for an include. -/
def Item.topThings : Item → List Thing
  | .block head _ span items =>
    if (blockFromName head).isSome then thingsIn items else [.unknown span]
  | .incl span => [.program span]
  | .assignment .. | .hook .. => []

mutual

/-- An item fits where its path is no longer than the buffer, if it is a hook, or a sub-block that
has anything in it ; and what is in it fits. -/
def Item.fits (path : Text) : Item → Bool
  | .assignment .. | .incl _ => true
  | .hook phase _ => (pathPush path phase).isSome
  | .block head _ _ items =>
    match pathPush path head with
    | some p => fitsIn p items
    | none => (thingsIn items).isEmpty

def fitsIn (path : Text) : List Item → Bool
  | [] => true
  | i :: is => i.fits path && fitsIn path is

end

/-- A block at the top that fits its scope. -/
def Item.topFits : Item → Bool
  | .block head _ _ items => (blockFromName head).isNone || fitsIn [] items
  | _ => true

/-! ## What the walk leaves out -/

theorem append_eq_append_iff_of_sublist {α : Type*} {a a' b b' : List α} (ha : a.Sublist a')
    (hb : b.Sublist b') : a ++ b = a' ++ b' ↔ a = a' ∧ b = b' := by
  refine ⟨fun h => ?_, fun ⟨hl, hr⟩ => by rw [hl, hr]⟩
  have hlen := congrArg List.length h
  rw [List.length_append, List.length_append] at hlen
  have hla := ha.length_le
  have hlb := hb.length_le
  exact ⟨ha.eq_of_length (by omega), hb.eq_of_length (by omega)⟩

theorem thing_walkAssignment (w : Within) (path : Text) (span value : Span) :
    (walkAssignment w path span value).thing = .key span := by
  have hwhy : (walkAssignment w path span value).withheld ≠ some .program ∧
      (walkAssignment w path span value).withheld ≠ some .unknownBlock := by
    unfold walkAssignment
    dsimp only
    split_ifs <;> simp
  rw [Report.thing, if_neg hwhy.1, if_neg hwhy.2]
  rfl

mutual

theorem walkItem_spec (w : Within) (path : Text) : ∀ i : Item,
    ((walkItem w path i).map Report.thing).Sublist i.things ∧
      ((walkItem w path i).map Report.thing = i.things ↔ i.fits path = true)
  | .assignment key span value => by
    unfold walkItem
    have hkey : (match pathPush path key with
        | some p => [walkAssignment w p span value]
        | none => [walkOver w path span]).map Report.thing = [Thing.key span] := by
      cases pathPush path key with
      | none => rfl
      | some p => rw [List.map_singleton, thing_walkAssignment]
    rw [hkey, Item.things, Item.fits]
    exact ⟨.refl _, by simp⟩
  | .block head _ _ items => by
    rw [walkItem, Item.things, Item.fits]
    cases pathPush path head with
    | none =>
      refine ⟨List.nil_sublist _, ?_⟩
      rw [List.map_nil, List.isEmpty_iff]
      exact eq_comm
    | some p => exact walkItems_spec w p items
  | .hook phase span => by
    rw [walkItem, Item.things, Item.fits]
    cases pathPush path phase with
    | none => exact ⟨List.nil_sublist _, by simp⟩
    | some p => exact ⟨.refl _, by simp [Report.thing, walkProgram]⟩
  | .incl span => by
    rw [walkItem, Item.things, Item.fits]
    exact ⟨.refl _, by simp [Report.thing, walkProgram]⟩

theorem walkItems_spec (w : Within) (path : Text) : ∀ is : List Item,
    ((walkItems w path is).map Report.thing).Sublist (thingsIn is) ∧
      ((walkItems w path is).map Report.thing = thingsIn is ↔ fitsIn path is = true)
  | [] => ⟨.refl _, by simp [walkItems, thingsIn, fitsIn]⟩
  | i :: is => by
    obtain ⟨hsub, hall⟩ := walkItem_spec w path i
    obtain ⟨hsubs, halls⟩ := walkItems_spec w path is
    rw [walkItems, thingsIn, fitsIn, List.map_append, Bool.and_eq_true,
      append_eq_append_iff_of_sublist hsub hsubs, hall, halls]
    exact ⟨hsub.append hsubs, Iff.rfl⟩

end

theorem walkTop_spec (text : Text) (i : Item) :
    ((walkTop text i).map Report.thing).Sublist i.topThings ∧
      ((walkTop text i).map Report.thing = i.topThings ↔ i.topFits = true) := by
  cases i with
  | block head label span items =>
    cases hblock : blockFromName head with
    | none =>
      simp only [walkTop, Item.topThings, Item.topFits, hblock]
      exact ⟨.refl _, by simp [Report.thing]⟩
    | some block =>
      simp only [walkTop, Item.topThings, Item.topFits, hblock]
      simpa using walkItems_spec ⟨text, block, head, label⟩ [] items
  | incl span => exact ⟨.refl _, by simp [walkTop, Item.topThings, Item.topFits, Report.thing]⟩
  | assignment key span value => exact ⟨.refl _, by simp [walkTop, Item.topThings, Item.topFits]⟩
  | hook phase span => exact ⟨.refl _, by simp [walkTop, Item.topThings, Item.topFits]⟩

/-- **The walk reports all there is where its paths fit.** Every assignment, hook and include nested
in a known block is reported, once and in source order, the hooks and includes as withheld, if and
only if no hook of a known block has a path past the buffer, nor a sub-block that holds one of
these. What is reported is in any case some of it, in order. -/
theorem walk_reports_all (text : Text) : ∀ file : List Item,
    ((walk text file).map Report.thing).Sublist (file.flatMap Item.topThings) ∧
      ((walk text file).map Report.thing = file.flatMap Item.topThings ↔
        ∀ i ∈ file, i.topFits = true)
  | [] => ⟨.refl _, by simp [walk]⟩
  | i :: file => by
    obtain ⟨hsub, hall⟩ := walkTop_spec text i
    obtain ⟨hsubs, halls⟩ := walk_reports_all text file
    rw [walk] at hsubs halls ⊢
    rw [List.flatMap_cons, List.flatMap_cons, List.map_append, List.forall_mem_cons,
      append_eq_append_iff_of_sublist hsub hsubs, hall, halls]
    exact ⟨hsub.append hsubs, Iff.rfl⟩

/-! ## A sub-block with a long name -/

def longName : Text := List.replicate 160 'a'

/-- `interface "eth0" { NAME { mtu = 9000 } }`. -/
def longText : Text :=
  "interface \"eth0\" \x7b ".toList ++ longName ++ " \x7b mtu = 9000 \x7d \x7d".toList

def longFile : List Item :=
  [.block "interface".toList (some "eth0".toList) ⟨0, 9⟩
    [.block longName none ⟨19, 160⟩ [.assignment "mtu".toList ⟨182, 3⟩ ⟨188, 4⟩]]]

/-- The key in it is reported neither as emitted nor as withheld. -/
theorem key_passed_over :
    (longFile.flatMap Item.topThings = [.key ⟨182, 3⟩] ∧ walk longText longFile = []) ∧
      (walk longText longFile).map Report.thing ≠ longFile.flatMap Item.topThings := by
  have hthings : longFile.flatMap Item.topThings = [.key ⟨182, 3⟩] := by decide +kernel
  have hwalk : walk longText longFile = [] := by decide +kernel
  rw [hthings, hwalk]
  exact ⟨⟨rfl, rfl⟩, by simp⟩

end Netcfgd.KeyWalk
