import Netcfgd.Kinds

/-!
# Tables of members

`src/model/field.c` : an object is read and written by a table, one entry a member, and a text is
refused where a member has no entry, or a member that is required is not there. A `Table` is the
entries of an object, in order, over the tuple of their values.

`Kind.struct` and `Kind.loose` make a table a kind of its own. The first is `ncfg_type_read`, which
counts the members it found, so that a member stated twice is one too many (`found_eq_length`). The
second is the readers of `src/host/state.c`, which check the names of an object and not how often
each is there.
-/

namespace Netcfgd.Model

open Json

/-! ## Entries -/

/-- A row of a table : a member, what a text that does not state it gives, and the values that
are written by leaving it out. -/
structure Entry (β : Type) where
  name : String
  /-- The value where the member is not there, nothing where it has to be. -/
  absent : Option β
  omits : β → Bool
  read : Doc → Option β
  write : β → List Call
  script : β → Script
  Says : Doc → β → Prop
  Clear : Doc → Prop
  Sound : β → Prop
  Keeps : β → Prop
  shape : Shape
  says_of_read : ∀ {d b}, read d = some b → Clear d → Says d b
  clear_of_says : ∀ {d b}, Says d b → Clear d
  names_of_says : ∀ {d b}, Says d b → Names d shape
  sound_of_read : ∀ {d b}, read d = some b → (omits b = false → Call.noString ∉ write b) → Sound b
  sound_of_absent : ∀ {b}, absent = some b → Sound b
  calls_script : ∀ {b}, Sound b → omits b = false → write b = (script b).calls
  sound_of_keeps : ∀ {b}, Keeps b → Sound b
  read_back : ∀ {b}, Sound b →
    ((if omits b then absent else read (said (script b))) = some b ↔ Keeps b)

namespace Kind

variable {β : Type} (k : Kind β)

def required (name : String) : Entry β where
  name
  absent := none
  omits _ := false
  read := k.read
  write := k.write
  script := k.script
  Says := k.Says
  Clear := k.Clear
  Sound := k.Sound
  Keeps := k.Keeps
  shape := k.shape
  says_of_read := k.says_of_read
  clear_of_says := k.clear_of_says
  names_of_says := k.names_of_says
  sound_of_read h hnull := k.sound_of_read h (hnull rfl)
  sound_of_absent := nofun
  calls_script h _ := k.calls_script h
  sound_of_keeps := k.sound_of_keeps
  read_back h := k.read_script h

/-- A member with a default, left out where `omits` says so : only where it is at the default. -/
def member (name : String) (fallback : β) (omits : β → Bool)
    (homits : ∀ b, omits b = true → b = fallback) (hsound : k.Sound fallback) : Entry β where
  name
  absent := some fallback
  omits
  read := k.read
  write := k.write
  script := k.script
  Says := k.Says
  Clear := k.Clear
  Sound b := k.Sound b
  Keeps b := omits b = true ∨ k.Keeps b
  shape := k.shape
  says_of_read := k.says_of_read
  clear_of_says := k.clear_of_says
  names_of_says := k.names_of_says
  sound_of_read {d b} h hnull := by
    cases ho : omits b with
    | true => exact homits b ho ▸ hsound
    | false => exact k.sound_of_read h (hnull ho)
  sound_of_absent h := Option.some.inj h ▸ hsound
  calls_script h _ := k.calls_script h
  sound_of_keeps {b} h := by
    rcases h with ho | hk
    · exact homits b ho ▸ hsound
    · exact k.sound_of_keeps hk
  read_back {b} h := by
    cases ho : omits b with
    | true => simp [homits b ho]
    | false => simpa using k.read_script h

/-- The reader of a member that may be absent : a null says so, where the kind is one of
`field_is_optional`. -/
def readNullable (nullable : Bool) (d : Doc) : Option (Option β) :=
  match nullable, d with
  | true, .null => some none
  | _, d => (k.read d).map some

theorem readNullable_eq_some {nullable : Bool} {d : Doc} {b : Option β} :
    k.readNullable nullable d = some b ↔ nullable = true ∧ d = .null ∧ b = none ∨
      ¬(nullable = true ∧ d = .null) ∧ ∃ v, b = some v ∧ k.read d = some v := by
  have hmap : (k.read d).map some = some b ↔ ∃ v, b = some v ∧ k.read d = some v := by
    rw [Option.map_eq_some_iff]
    exact exists_congr fun v => ⟨fun h => ⟨h.2.symm, h.1⟩, fun h => ⟨h.2, h.1.symm⟩⟩
  by_cases hnull : nullable = true ∧ d = .null
  · obtain ⟨rfl, rfl⟩ := hnull
    simp [readNullable, eq_comm]
  · have hread : k.readNullable nullable d = (k.read d).map some := by
      unfold readNullable
      split
      · exact absurd ⟨rfl, rfl⟩ hnull
      · rfl
    rw [hread, hmap]
    simp only [hnull, not_false_eq_true, true_and, ← and_assoc, false_and, false_or]

/-- A member that may be absent, and is left out where it is. A text may be asked to state it all
the same. -/
def optional (name : String) (must nullable : Bool) : Entry (Option β) where
  name
  absent := if must then none else some none
  omits := Option.isNone
  read := k.readNullable nullable
  write
    | some v => k.write v
    | none => []
  script
    | some v => k.script v
    | none => .scalar .null
  Says d b := nullable = true ∧ d = .null ∧ b = none ∨ ∃ v, b = some v ∧ k.Says d v
  Clear d := nullable = true ∧ d = .null ∨ k.Clear d
  Sound b := ∀ v, b = some v → k.Sound v
  Keeps b := (must = true → b.isSome) ∧ ∀ v, b = some v → k.Keeps v
  shape := k.shape
  says_of_read {d b} h hclear := by
    rcases k.readNullable_eq_some.1 h with hnull | ⟨hnull, v, rfl, hread⟩
    · exact .inl hnull
    · exact .inr ⟨v, rfl, k.says_of_read hread (hclear.resolve_left hnull)⟩
  clear_of_says := by
    rintro d b (⟨hnull, rfl, rfl⟩ | ⟨v, rfl, hmeans⟩)
    · exact .inl ⟨hnull, rfl⟩
    · exact .inr (k.clear_of_says hmeans)
  names_of_says := by
    rintro d b (⟨-, rfl, rfl⟩ | ⟨v, rfl, hmeans⟩)
    · trivial
    · exact k.names_of_says hmeans
  sound_of_read {d b} h hnull := by
    rintro v rfl
    rcases k.readNullable_eq_some.1 h with ⟨-, -, hnone⟩ | ⟨-, v', heq, hread⟩
    · cases hnone
    · cases heq
      exact k.sound_of_read hread (hnull rfl)
  sound_of_absent {b} h := by
    rintro v rfl
    cases must <;> cases h
  calls_script {b} h ho := by
    cases b with
    | none => cases ho
    | some v => exact k.calls_script (h v rfl)
  sound_of_keeps h v hv := k.sound_of_keeps (h.2 v hv)
  read_back {b} h := by
    cases b with
    | none => cases must <;> simp
    | some v =>
      have hread : k.readNullable nullable (said (k.script v)) = some (some v) ↔ k.Keeps v := by
        rw [readNullable_eq_some]
        simp [k.said_ne_null v, k.read_script (h v rfl)]
      simpa using hread

end Kind

/-! ## Tables -/

/-- The rows of a table, in order, over the tuple of their values. -/
inductive Table : Type → Type 1
  | nil : Table Unit
  | cons {β γ : Type} (entry : Entry β) (rest : Table γ) : Table (β × γ)

/-- The value of a member of an object, and how many members it is found at. -/
def Entry.find {β : Type} (e : Entry β) (ms : Members) : Option (β × ℕ) :=
  match member? ms e.name with
  | some d => (e.read d).map (·, 1)
  | none => e.absent.map (·, 0)

namespace Table

def names : {τ : Type} → Table τ → List String
  | _, nil => []
  | _, cons e rest => e.name :: rest.names

def shapes : {τ : Type} → Table τ → List (String × Shape)
  | _, nil => []
  | _, cons e rest => (e.name, e.shape) :: rest.shapes

/-- The values of an object's members, and how many members they are found at. -/
def read (ms : Members) : {τ : Type} → Table τ → Option (τ × ℕ)
  | _, nil => some ((), 0)
  | _, cons e rest => do
    let (b, found) ← e.find ms
    let (bs, more) ← rest.read ms
    return ((b, bs), found + more)

/-- `ncfg_type_write` : the members in order, a member that is left out not even named. -/
def write : {τ : Type} → Table τ → τ → List Call
  | _, nil, _ => []
  | _, cons e rest, (b, bs) =>
    (if e.omits b then [] else .key (some (asciis e.name)) :: e.write b) ++ rest.write bs

def fields : {τ : Type} → Table τ → τ → List Field
  | _, nil, _ => []
  | _, cons e rest, (b, bs) =>
    (e.name, if e.omits b then none else some (e.script b)) :: rest.fields bs

/-- Every member says the value of its name, and a value without a member is the default. -/
def Says (ms : Members) : {τ : Type} → Table τ → τ → Prop
  | _, nil, _ => True
  | _, cons e rest, (b, bs) => (∀ d, (asciis e.name, d) ∈ ms → e.Says d b) ∧
      ((∀ d, (asciis e.name, d) ∉ ms) → e.absent = some b) ∧ rest.Says ms bs

/-- Every member is one whose text means what the reader takes of it. -/
def Clear (ms : Members) : {τ : Type} → Table τ → Prop
  | _, nil => True
  | _, cons e rest => (∀ d, (asciis e.name, d) ∈ ms → e.Clear d) ∧ rest.Clear ms

def Sound : {τ : Type} → Table τ → τ → Prop
  | _, nil, _ => True
  | _, cons e rest, (b, bs) => e.Sound b ∧ rest.Sound bs

def Keeps : {τ : Type} → Table τ → τ → Prop
  | _, nil, _ => True
  | _, cons e rest, (b, bs) => e.Keeps b ∧ rest.Keeps bs

variable {τ : Type}

theorem fst_fields : ∀ {τ : Type} (t : Table τ) (v : τ), (t.fields v).map Prod.fst = t.names
  | _, nil, _ => rfl
  | _, cons e rest, (b, bs) => by rw [fields, List.map_cons, fst_fields rest, names]

theorem fst_shapes : ∀ {τ : Type} (t : Table τ), t.shapes.map Prod.fst = t.names
  | _, nil => rfl
  | _, cons e rest => by rw [shapes, List.map_cons, fst_shapes rest, names]

variable {ms : Members}

theorem read_cons_eq_some {β γ : Type} {e : Entry β} {rest : Table γ} {b : β} {bs : γ} {n : ℕ} :
    (cons e rest).read ms = some ((b, bs), n) ↔
      ∃ found more, e.find ms = some (b, found) ∧ rest.read ms = some (bs, more) ∧
        n = found + more := by
  simp only [read, Option.bind_eq_bind, Option.bind_eq_some_iff, Option.pure_def, Option.some.injEq,
    Prod.exists, Prod.mk.injEq]
  constructor
  · rintro ⟨b', found, hfind, bs', more, hread, ⟨rfl, rfl⟩, rfl⟩
    exact ⟨found, more, hfind, hread, rfl⟩
  · rintro ⟨found, more, hfind, hread, rfl⟩
    exact ⟨b, found, hfind, bs, more, hread, ⟨rfl, rfl⟩, rfl⟩

theorem find_eq_some {β : Type} {e : Entry β} {b : β} {found : ℕ} :
    e.find ms = some (b, found) ↔
      (∃ d, member? ms e.name = some d ∧ e.read d = some b ∧ found = 1) ∨
        member? ms e.name = none ∧ e.absent = some b ∧ found = 0 := by
  unfold Entry.find
  cases member? ms e.name with
  | some d => simp [eq_comm]
  | none => simp [eq_comm]

theorem found_of_read : ∀ {τ : Type} {t : Table τ} {v : τ} {n : ℕ},
    t.read ms = some (v, n) → n = (t.names.filter fun name => (member? ms name).isSome).length
  | _, nil, _, _, h => by
    cases h
    rfl
  | _, cons e rest, (b, bs), n, h => by
    obtain ⟨found, more, hfind, hread, rfl⟩ := read_cons_eq_some.1 h
    rw [found_of_read hread, names]
    rcases find_eq_some.1 hfind with ⟨d, hd, -, rfl⟩ | ⟨hd, -, rfl⟩
    · rw [List.filter_cons_of_pos (by rw [hd]; rfl), List.length_cons, add_comm]
    · rw [List.filter_cons_of_neg (by rw [hd]; nofun), zero_add]

theorem member?_of_mem (hnodup : (ms.map Prod.fst).Nodup) {name : String} {d : Doc}
    (h : (asciis name, d) ∈ ms) : member? ms name = some d := by
  cases hfind : ms.find? fun m => m.1 = asciis name with
  | none =>
    have hno := List.find?_eq_none.1 hfind _ h
    simp at hno
  | some m =>
    have hname : m.1 = asciis name := by simpa using List.find?_some hfind
    have hsame : m = (asciis name, d) :=
      List.inj_on_of_nodup_map hnodup (List.mem_of_find?_eq_some hfind) h hname
    rw [member?, hfind, hsame]
    rfl

theorem mem_of_member? {name : String} {d : Doc} (h : member? ms name = some d) :
    (asciis name, d) ∈ ms := by
  obtain ⟨m, hfind, rfl⟩ := Option.map_eq_some_iff.1 h
  have hname : m.1 = asciis name := by simpa using List.find?_some hfind
  rw [← hname]
  exact List.mem_of_find?_eq_some hfind

theorem found_eq_length {names : List String} (hnodup : (names.map asciis).Nodup) :
    ms.length = (names.filter fun name => (member? ms name).isSome).length ↔ OnlyOnce names ms := by
  have hfound : ∀ name ∈ names.filter fun name => (member? ms name).isSome,
      asciis name ∈ ms.map Prod.fst := fun name hname => by
    obtain ⟨d, hd⟩ := Option.isSome_iff_exists.1 (List.mem_filter.1 hname).2
    exact List.mem_map_of_mem (mem_of_member? hd)
  set found := (names.filter fun name => (member? ms name).isSome).map asciis with hdef
  have hlen : (names.filter fun name => (member? ms name).isSome).length = found.length := by
    rw [hdef, List.length_map]
  have hfnodup : found.Nodup := hnodup.sublist (List.filter_sublist.map asciis)
  have hsub : found.Subperm (ms.map Prod.fst) := hfnodup.subperm fun b hb => by
    obtain ⟨name, hname, rfl⟩ := List.mem_map.1 hb
    exact hfound name hname
  have hmap : ms.length = (ms.map Prod.fst).length := by rw [List.length_map]
  rw [hlen, hmap]
  constructor
  · intro heq
    have hperm : found.Perm (ms.map Prod.fst) := hsub.perm_of_length_le heq.le
    refine ⟨hperm.nodup_iff.1 hfnodup, fun m hm => ?_⟩
    obtain ⟨name, hname, heq⟩ := List.mem_map.1 (hperm.mem_iff.2 (List.mem_map_of_mem hm))
    rw [← heq]
    exact List.mem_map_of_mem (List.mem_of_mem_filter hname)
  · rintro ⟨hmsnodup, hnames⟩
    refine le_antisymm ?_ hsub.length_le
    refine (hmsnodup.subperm fun b hb => ?_).length_le
    obtain ⟨m, hm, rfl⟩ := List.mem_map.1 hb
    obtain ⟨name, hname, heq⟩ := List.mem_map.1 (hnames m hm)
    rw [← heq]
    refine List.mem_map_of_mem (List.mem_filter.2 ⟨hname, ?_⟩)
    rw [member?_of_mem hmsnodup (d := m.2) (by rw [heq]; exact hm)]
    rfl

theorem says_of_read (hnodup : (ms.map Prod.fst).Nodup) :
    ∀ {τ : Type} {t : Table τ} {v : τ} {n : ℕ}, t.read ms = some (v, n) → t.Clear ms → t.Says ms v
  | _, nil, _, _, _, _ => trivial
  | _, cons e rest, (b, bs), n, h, hclears => by
    obtain ⟨hclear, hrest⟩ := hclears
    obtain ⟨found, more, hfind, hread, -⟩ := read_cons_eq_some.1 h
    refine ⟨fun d hd => ?_, fun hno => ?_, says_of_read hnodup hread hrest⟩
    · have hmember := member?_of_mem hnodup hd
      rcases find_eq_some.1 hfind with ⟨d', hd', hval, -⟩ | ⟨hnone, -, -⟩
      · rw [hmember, Option.some.injEq] at hd'
        exact e.says_of_read (hd' ▸ hval) (hclear d hd)
      · rw [hmember] at hnone
        cases hnone
    · rcases find_eq_some.1 hfind with ⟨d', hd', -, -⟩ | ⟨-, habsent, -⟩
      · exact absurd (mem_of_member? hd') (hno d')
      · exact habsent

theorem clear_of_says : ∀ {τ : Type} {t : Table τ} {v : τ}, t.Says ms v → t.Clear ms
  | _, nil, _, _ => trivial
  | _, cons e rest, (b, bs), h => by
    obtain ⟨hmeans, -, hrest⟩ := h
    exact ⟨fun d hd => e.clear_of_says (hmeans d hd), clear_of_says hrest⟩

theorem names_of_says : ∀ {τ : Type} {t : Table τ} {v : τ}, t.Says ms v →
    ∀ entry ∈ t.shapes, ∀ d, (asciis entry.1, d) ∈ ms → Names d entry.2
  | _, nil, _, _, _, hentry, _, _ => by cases hentry
  | _, cons e rest, (b, bs), h, entry, hentry, d, hd => by
    obtain ⟨hmeans, -, hrest⟩ := h
    rcases List.mem_cons.1 hentry with rfl | hentry
    · exact e.names_of_says (hmeans d hd)
    · exact names_of_says hrest entry hentry d hd

theorem names_object_of_says {t : Table τ} {v : τ} (honce : OnlyOnce t.names ms) (h : t.Says ms v) :
    Names (.object ms) (.object t.shapes) := by
  refine names_object.2 fun m hm => ?_
  obtain ⟨name, hname, heq⟩ := List.mem_map.1 (honce.2 m hm)
  rw [← t.fst_shapes] at hname
  obtain ⟨entry, hentry, rfl⟩ := List.mem_map.1 hname
  cases hfind : t.shapes.find? fun s => asciis s.1 = m.1 with
  | none =>
    have hno := List.find?_eq_none.1 hfind entry hentry
    simp [heq] at hno
  | some entry' =>
    have heq' : asciis entry'.1 = m.1 := by simpa using List.find?_some hfind
    refine ⟨entry'.2, by rw [Shape.member, hfind]; rfl, ?_⟩
    exact names_of_says h entry' (List.mem_of_find?_eq_some hfind) m.2 (by rw [heq']; exact hm)

theorem sound_of_read : ∀ {τ : Type} {t : Table τ} {v : τ} {n : ℕ},
    t.read ms = some (v, n) → Call.noString ∉ t.write v → t.Sound v
  | _, nil, _, _, _, _ => trivial
  | _, cons e rest, (b, bs), n, h, hnull => by
    obtain ⟨found, more, hfind, hread, -⟩ := read_cons_eq_some.1 h
    rw [write, List.mem_append, not_or] at hnull
    refine ⟨?_, sound_of_read hread hnull.2⟩
    rcases find_eq_some.1 hfind with ⟨d, -, hval, -⟩ | ⟨-, habsent, -⟩
    · refine e.sound_of_read hval fun ho hmem => hnull.1 ?_
      rw [ho]
      exact List.mem_cons_of_mem _ hmem
    · exact e.sound_of_absent habsent

theorem sound_of_keeps : ∀ {τ : Type} {t : Table τ} {v : τ}, t.Keeps v → t.Sound v
  | _, nil, _, _ => trivial
  | _, cons e rest, (b, bs), h => by
    obtain ⟨hb, hbs⟩ := h
    exact ⟨e.sound_of_keeps hb, sound_of_keeps hbs⟩

theorem calls_fields : ∀ {τ : Type} {t : Table τ} {v : τ}, t.Sound v →
    t.write v = membersCalls (Json.written (t.fields v))
  | _, nil, _, _ => rfl
  | _, cons e rest, (b, bs), h => by
    obtain ⟨hb, hbs⟩ := h
    rw [write, calls_fields hbs, fields]
    cases ho : e.omits b with
    | true => rfl
    | false =>
      rw [if_neg Bool.false_ne_true, if_neg Bool.false_ne_true, e.calls_script hb ho]
      change _ = membersCalls ((asciis e.name, e.script b) :: Json.written (rest.fields bs))
      rw [membersCalls, List.cons_append]

theorem read_fields {whole : List Field} (hproper : Proper (whole.map Prod.fst)) :
    ∀ {τ : Type} {t : Table τ} {v : τ}, t.Sound v → (∀ f ∈ t.fields v, f ∈ whole) →
      ((∃ n, t.read (told whole) = some (v, n)) ↔ t.Keeps v)
  | _, nil, _, _, _ => iff_of_true ⟨0, rfl⟩ trivial
  | _, cons e rest, (b, bs), h, hfields => by
    obtain ⟨hb, hbs⟩ := h
    have hrest := read_fields hproper hbs fun f hf => hfields f (List.mem_cons_of_mem _ hf)
    have hfield := hfields _ List.mem_cons_self
    have hmember := member?_told hproper hfield
    have hfind : (∃ found, e.find (told whole) = some (b, found)) ↔ e.Keeps b := by
      rw [← e.read_back hb]
      simp only [find_eq_some, hmember]
      cases e.omits b <;> simp
    rw [Keeps, ← hfind, ← hrest]
    constructor
    · rintro ⟨n, h⟩
      obtain ⟨found, more, hfind, hread, -⟩ := read_cons_eq_some.1 h
      exact ⟨⟨found, hfind⟩, more, hread⟩
    · rintro ⟨⟨found, hfind⟩, more, hread⟩
      exact ⟨found + more, read_cons_eq_some.2 ⟨found, more, hfind, hread, rfl⟩⟩

end Table

/-! ## Objects -/

namespace Kind

variable {τ σ : Type} (t : Table τ) (e : τ ≃ σ)

theorem calls_object {v : τ} (h : t.Sound v) : Call.objectBegin :: (t.write v ++ [Call.objectEnd]) =
    (Script.object (Json.written (t.fields v))).calls := by
  rw [Table.calls_fields h]
  rfl

theorem noString_members {v : τ}
    (h : Call.noString ∉ Call.objectBegin :: (t.write v ++ [Call.objectEnd])) :
    Call.noString ∉ t.write v :=
  fun hmem => h (List.mem_cons_of_mem _ (List.mem_append_left _ hmem))

def ObjectSays (d : Doc) (s : σ) : Prop :=
  ∃ ms, d = .object ms ∧ OnlyOnce t.names ms ∧ t.Says ms (e.symm s)

theorem read_written (hproper : Proper t.names) {v : τ} (h : t.Sound v) :
    (∃ n, t.read (told (t.fields v)) = some (v, n)) ↔ t.Keeps v :=
  Table.read_fields (by rwa [t.fst_fields]) h fun _ hf => hf

theorem onlyOnce_fields (hproper : Proper t.names) (v : τ) :
    OnlyOnce t.names (told (t.fields v)) := by
  have hfields : Proper ((t.fields v).map Prod.fst) := by rwa [t.fst_fields]
  have honce := onlyOnce_told hfields
  rwa [t.fst_fields] at honce

/-- `ncfg_type_read` of the members of an object. -/
def readMembers (ms : Members) : Option τ :=
  (t.read ms).bind fun (v, claimed) => if ms.length = claimed then some v else none

theorem readMembers_eq_some (hproper : Proper t.names) {ms : Members} {v : τ} :
    readMembers t ms = some v ↔ OnlyOnce t.names ms ∧ ∃ n, t.read ms = some (v, n) := by
  unfold readMembers
  rw [Option.bind_eq_some_iff]
  constructor
  · rintro ⟨⟨v', n⟩, hread, hlen⟩
    dsimp only at hlen
    split_ifs at hlen with heq
    cases hlen
    rw [Table.found_of_read hread, Table.found_eq_length hproper.1] at heq
    exact ⟨heq, n, hread⟩
  · rintro ⟨honce, n, hread⟩
    refine ⟨(v, n), hread, if_pos ?_⟩
    rw [Table.found_of_read hread, Table.found_eq_length hproper.1]
    exact honce

/-- `ncfg_type_read` and `ncfg_type_write`, of a table whose texts are all clear. -/
def struct (hproper : Proper t.names) (hclear : ∀ ms, t.Clear ms) : Kind σ where
  read
    | .object ms => (readMembers t ms).map e
    | _ => none
  write s := .objectBegin :: (t.write (e.symm s) ++ [Call.objectEnd])
  script s := .object (Json.written (t.fields (e.symm s)))
  Says := ObjectSays t e
  Clear _ := True
  Sound s := t.Sound (e.symm s)
  Keeps s := t.Keeps (e.symm s)
  shape := .object t.shapes
  says_of_read {d s} h _ := by
    cases d with
    | object ms =>
      obtain ⟨v, hv, rfl⟩ := Option.map_eq_some_iff.1 h
      obtain ⟨honce, n, hread⟩ := (readMembers_eq_some t hproper).1 hv
      refine ⟨ms, rfl, honce, ?_⟩
      rw [e.symm_apply_apply]
      exact Table.says_of_read honce.1 hread (hclear ms)
    | null | bool _ | number _ | string _ | array _ => cases h
  clear_of_says _ := trivial
  names_of_says := by
    rintro d s ⟨ms, rfl, honce, hmeans⟩
    exact Table.names_object_of_says honce hmeans
  sound_of_read {d s} h hnull := by
    cases d with
    | object ms =>
      obtain ⟨v, hv, rfl⟩ := Option.map_eq_some_iff.1 h
      obtain ⟨-, n, hread⟩ := (readMembers_eq_some t hproper).1 hv
      rw [e.symm_apply_apply] at hnull ⊢
      exact Table.sound_of_read hread (noString_members t hnull)
    | null | bool _ | number _ | string _ | array _ => cases h
  calls_script h := calls_object t h
  said_ne_null _ := nofun
  sound_of_keeps := Table.sound_of_keeps
  read_script {s} h := by
    change (readMembers t (told (t.fields (e.symm s)))).map e = some s ↔ _
    rw [← read_written t hproper h, Option.map_eq_some_iff]
    simp only [readMembers_eq_some t hproper]
    constructor
    · rintro ⟨v, ⟨-, n, hread⟩, rfl⟩
      exact ⟨n, by rwa [e.symm_apply_apply] at hread ⊢⟩
    · rintro ⟨n, hread⟩
      exact ⟨e.symm s, ⟨onlyOnce_fields t hproper _, n, hread⟩, e.apply_symm_apply s⟩

/-- The members of an object for the readers of `src/host/state.c` : a member no table names is
refused, and of a name that is stated twice only the first is looked at. -/
def readNamed (ms : Members) : Option τ :=
  if ms.all fun m => t.names.any fun name => m.1 = asciis name then (t.read ms).map Prod.fst
  else none

theorem readNamed_eq_some {ms : Members} {v : τ} :
    readNamed t ms = some v ↔
      (∀ m ∈ ms, m.1 ∈ t.names.map asciis) ∧ ∃ n, t.read ms = some (v, n) := by
  have hnamed : (ms.all fun m => t.names.any fun name => m.1 = asciis name) = true ↔
      ∀ m ∈ ms, m.1 ∈ t.names.map asciis := by
    simp only [List.all_eq_true, List.any_eq_true, decide_eq_true_eq, List.mem_map,
      eq_comm (b := asciis _)]
  unfold readNamed
  split_ifs with hall
  · rw [Option.map_eq_some_iff]
    constructor
    · rintro ⟨⟨v', n⟩, hread, rfl⟩
      exact ⟨hnamed.1 hall, n, hread⟩
    · rintro ⟨-, n, hread⟩
      exact ⟨(v, n), hread, rfl⟩
  · exact iff_of_false (by simp) fun h => hall (hnamed.2 h.1)

/-- An object as `src/host/state.c` reads one. -/
def loose (hproper : Proper t.names) : Kind σ where
  read
    | .object ms => (readNamed t ms).map e
    | _ => none
  write s := .objectBegin :: (t.write (e.symm s) ++ [Call.objectEnd])
  script s := .object (Json.written (t.fields (e.symm s)))
  Says := ObjectSays t e
  Clear d := ∀ ms, d = .object ms → (ms.map Prod.fst).Nodup ∧ t.Clear ms
  Sound s := t.Sound (e.symm s)
  Keeps s := t.Keeps (e.symm s)
  shape := .object t.shapes
  says_of_read {d s} h hclear := by
    cases d with
    | object ms =>
      obtain ⟨v, hv, rfl⟩ := Option.map_eq_some_iff.1 h
      obtain ⟨hnamed, n, hread⟩ := (readNamed_eq_some t).1 hv
      obtain ⟨hnodup, hmembers⟩ := hclear ms rfl
      refine ⟨ms, rfl, ⟨hnodup, hnamed⟩, ?_⟩
      rw [e.symm_apply_apply]
      exact Table.says_of_read hnodup hread hmembers
    | null | bool _ | number _ | string _ | array _ => cases h
  clear_of_says := by
    rintro d s ⟨ms, rfl, honce, hmeans⟩ ms' heq
    cases heq
    exact ⟨honce.1, Table.clear_of_says hmeans⟩
  names_of_says := by
    rintro d s ⟨ms, rfl, honce, hmeans⟩
    exact Table.names_object_of_says honce hmeans
  sound_of_read {d s} h hnull := by
    cases d with
    | object ms =>
      obtain ⟨v, hv, rfl⟩ := Option.map_eq_some_iff.1 h
      obtain ⟨-, n, hread⟩ := (readNamed_eq_some t).1 hv
      rw [e.symm_apply_apply] at hnull ⊢
      exact Table.sound_of_read hread (noString_members t hnull)
    | null | bool _ | number _ | string _ | array _ => cases h
  calls_script h := calls_object t h
  said_ne_null _ := nofun
  sound_of_keeps := Table.sound_of_keeps
  read_script {s} h := by
    change (readNamed t (told (t.fields (e.symm s)))).map e = some s ↔ _
    rw [← read_written t hproper h, Option.map_eq_some_iff]
    simp only [readNamed_eq_some t]
    constructor
    · rintro ⟨v, ⟨-, n, hread⟩, rfl⟩
      exact ⟨n, by rwa [e.symm_apply_apply] at hread ⊢⟩
    · rintro ⟨n, hread⟩
      exact ⟨e.symm s, ⟨(onlyOnce_fields t hproper _).2, n, hread⟩, e.apply_symm_apply s⟩

end Kind

end Netcfgd.Model
