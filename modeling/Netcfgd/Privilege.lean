import Netcfgd.Ast

/-!
# The privilege gate

`src/daemon/privilege.c`, and the part of `authorize.c` that asks it : what a configuration
asks for beyond configuring a network, by a table of the keys of each block and by a look at
every value. A caller who is not root on this machine may send only what finds nothing
(`authzCheckContent_eq`).
-/

namespace Netcfgd.Compile

/-- `ncfg_privilege_reason_t`. -/
inductive PrivilegeReason
  | hook
  | probe
  | secretExec
  | foreignConfig
  | path
  | incl
  | authorization
  | principal
  deriving DecidableEq, Repr

/-- `ncfg_privilege_finding_t`. -/
structure Finding where
  reason : PrivilegeReason
  what : String
  deriving DecidableEq, Repr

/-- `privileged` : the assignments that are, by the block they appear in. -/
def privileged : List (String × String × PrivilegeReason) :=
  [("probe", "command", .probe), ("probe", "args", .probe),
    ("openvpn", "config", .foreignConfig), ("openvpn", "file", .foreignConfig),
    ("wifi", "ca_cert", .path), ("wifi", "client_cert", .path), ("wifi", "private_key", .path),
    ("control", "observe", .authorization), ("control", "wifi", .authorization),
    ("control", "admin", .authorization), ("remote", "observe", .authorization),
    ("remote", "wifi", .authorization), ("remote", "admin", .authorization),
    ("tun", "owner", .principal), ("tun", "group", .principal)]

/-- `assignment_reason`. -/
def assignmentReason (block key : String) : Option PrivilegeReason :=
  (privileged.find? fun p => p.1 = block ∧ p.2.1 = key).map fun p => p.2.2

/-- `string_starts_with`. -/
def Value.startsWith (v : Value) (start : String) : Bool :=
  match v with
  | .string s => start.toList.isPrefixOf s.toList
  | _ => false

/-- `cert_is_a_path`. -/
def certIsAPath (v : Value) : Bool :=
  !v.startsWith "@secret:"

mutual

/-- `secret_exec`. -/
def secretExec : Value → Bool
  | .string s => "@secret:exec:".toList.isPrefixOf s.toList
  | .list entries => secretExecAny entries
  | _ => false

/-- One of the values is an `exec` secret. -/
def secretExecAny : List Value → Bool
  | [] => false
  | v :: vs => secretExec v || secretExecAny vs

end

def assignmentFindings (block key : String) (value : Value) : List Finding :=
  (match assignmentReason block key with
    | some reason =>
      if reason ≠ .path ∨ certIsAPath value then [⟨reason, block ++ "." ++ key⟩] else []
    | none => []) ++
  if secretExec value then [⟨.secretExec, key ++ "= @secret:exec:"⟩] else []

mutual

/-- `walk_item`. -/
def walkItem (block : String) : Item → List Finding
  | .hook phase _ => [⟨.hook, phase⟩]
  | .incl path => [⟨.incl, "include \"" ++ path ++ "\""⟩]
  | .assignment key value => assignmentFindings block key value
  | .block head _ _ items => walk head items

/-- `walk`. -/
def walk (block : String) : List Item → List Finding
  | [] => []
  | i :: is => walkItem block i ++ walk block is

end

/-- `ncfg_privilege_findings`. -/
def privilegeFindings (file : List Item) : List Finding :=
  walk "" file

/-! ## Reading the answer back -/

theorem walkItem_of_walk {block : String} :
    ∀ {items : List Item}, walk block items = [] → ∀ i ∈ items, walkItem block i = []
  | i :: is, h, j, hj => by
    rw [walk] at h
    obtain ⟨hi, his⟩ := List.append_eq_nil_iff.1 h
    rcases List.mem_cons.1 hj with rfl | hj
    · exact hi
    · exact walkItem_of_walk his j hj

theorem walk_of_walkItem {block : String} :
    ∀ {items : List Item}, (∀ i ∈ items, walkItem block i = []) → walk block items = []
  | [], _ => rfl
  | i :: is, h => by
    rw [walk, h i List.mem_cons_self,
      walk_of_walkItem fun j hj => h j (List.mem_cons_of_mem _ hj), List.append_nil]

theorem secretExec_of_walkItem {block key : String} {v : Value}
    (h : walkItem block (.assignment key v) = []) : secretExec v = false := by
  rw [walkItem, assignmentFindings] at h
  obtain ⟨-, h⟩ := List.append_eq_nil_iff.1 h
  by_contra hs
  simp [hs] at h

theorem assignmentReason_of_walkItem {block key : String} {v : Value} {reason : PrivilegeReason}
    (h : walkItem block (.assignment key v) = []) (hr : assignmentReason block key = some reason) :
    reason = .path ∧ certIsAPath v = false := by
  rw [walkItem, assignmentFindings, hr] at h
  obtain ⟨h, -⟩ := List.append_eq_nil_iff.1 h
  dsimp only at h
  split_ifs at h with hc
  simpa using hc

end Netcfgd.Compile
