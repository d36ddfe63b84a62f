import Netcfgd.Globals

/-!
# Which file has the last word

The `global` blocks of one label are merged into one, an `override` replacing what was there
(`standing`). A key of a further block replaces the *first* assignment of the key in the merged
block. So the merged assignments of a key are the ones of the block the rest was merged into,
with the first replaced by the last assignment that followed (`held_mergeSources`), and the last
one lowered is the last one written where that block assigns the key at most once, or nothing
follows (`later_wins`).
-/

namespace Netcfgd.Compile

variable {k : ScalarKey}

/-! ## What the merge makes of the assignments written -/

/-- Where a setting can be written : at the top of a file, or in the `global` blocks of one
label. -/
inductive Place
  | top
  | block (label : Option String)
  deriving DecidableEq, Repr

/-- The statements an item makes at a place, and whether they override the ones before. -/
def said : Place → Item → Option (Bool × List Item)
  | .top, .assignment key v => some (false, [.assignment key v])
  | .block label, .block head label' overrides items =>
    if head = "global" ∧ label' = label then some (overrides, items) else none
  | _, _ => none

/-- The statements that stand once an item has been read : an `override` discards the others. -/
def stand (p : Place) (kept : List (List Item)) (i : Item) : List (List Item) :=
  match said p i with
  | none => kept
  | some (true, items) => [items]
  | some (false, items) => kept ++ [items]

/-- The statements that stand at a place, in file order and then source order, block by block. -/
def standing (p : Place) (items : List Item) : List (List Item) :=
  items.foldl (stand p) []

def held (k : ScalarKey) (m : Merged) : Place → List Value
  | .top => topValues k m.assignments
  | .block label =>
    ((m.blocks.find? fun b => b.head = "global" ∧ b.label = label).map fun b =>
      valuesOf k b.items).getD []

def replaceFirst (values : List Value) (v : Value) : List Value := v :: values.tail

def heldOf (k : ScalarKey) : List (List Item) → List Value
  | [] => []
  | first :: rest => (valuesOf k rest.flatten).foldl replaceFirst (valuesOf k first)

def MergedBlock.is (head : String) (label : Option String) (b : MergedBlock) : Bool :=
  b.head = head ∧ b.label = label

/-- The merged tree of the items read so far : one block of each head and label, of which a
`global` block is there where something stands at its label, and holds what stands there. -/
structure Tracks (k : ScalarKey) (read : List Item) (m : Merged) : Prop where
  keys : (m.blocks.map fun b => (b.head, b.label)).Nodup
  held : ∀ p, held k m p = heldOf k (standing p read)
  present : ∀ label, m.blocks.find? (MergedBlock.is "global" label) = none ↔
    standing (.block label) read = []

/-- The key is written at one place only, and there under its own name. -/
structure OnlyAt (k : ScalarKey) (p : Place) (items : List Item) : Prop where
  elsewhere : ∀ q ≠ p, ∀ i ∈ items, ∀ s ∈ said q i, valuesOf k s.2 = []
  directly : ∀ label, ∀ i ∈ items, ∀ s ∈ said (.block label) i, ∀ j ∈ s.2, writesBesides k j = false

theorem valuesOf_append (l l' : List Item) : valuesOf k (l ++ l') = valuesOf k l ++ valuesOf k l' :=
  List.filterMap_append

theorem heldOf_concat {kept : List (List Item)} (items : List Item) (h : kept ≠ []) :
    heldOf k (kept ++ [items]) = (valuesOf k items).foldl replaceFirst (heldOf k kept) := by
  cases kept with
  | nil => exact absurd rfl h
  | cons first rest =>
    simp [heldOf, valuesOf_append, List.foldl_append]

section SetFirst

variable {α β : Type*} {p : β → Bool} {f : β → Option α} {x : β}

theorem filterMap_setFirst {v : α} (hp : ∀ b, p b = (f b).isSome) (hx : f x = some v) :
    ∀ bs : List β, ((setFirst p x bs).getD (bs ++ [x])).filterMap f = v :: (bs.filterMap f).tail
  | [] => by simp [setFirst, hx]
  | b :: bs => by
    have ih := filterMap_setFirst hp hx bs
    rcases hb : f b with _ | w
    · have hpb : p b = false := by rw [hp, hb]; rfl
      simp only [setFirst, hpb, Bool.false_eq_true, if_false]
      rcases hset : setFirst p x bs with _ | bs'
      · rw [hset, Option.getD_none] at ih
        simpa [hb] using ih
      · rw [hset, Option.getD_some] at ih
        simpa [hb] using ih
    · have hpb : p b = true := by rw [hp, hb]; rfl
      simp [setFirst, hpb, hb, hx]

theorem filterMap_setFirst_other (hp : ∀ b, p b = true → f b = none) (hx : f x = none) :
    ∀ bs : List β, ((setFirst p x bs).getD (bs ++ [x])).filterMap f = bs.filterMap f
  | [] => by simp [setFirst, hx]
  | b :: bs => by
    have ih := filterMap_setFirst_other hp hx bs
    rcases hpb : p b with _ | _
    · simp only [setFirst, hpb, Bool.false_eq_true, if_false]
      rcases hset : setFirst p x bs with _ | bs'
      · rw [hset, Option.getD_none] at ih
        simp [List.filterMap_cons, ih]
      · rw [hset, Option.getD_some] at ih
        simp [List.filterMap_cons, ih]
    · simp [setFirst, hpb, hp b hpb, hx]

end SetFirst

theorem topValues_mergeAssignment (assignments : List (String × Value)) (key : String) (v : Value) :
    topValues k (mergeAssignment assignments key v) =
      (assignedTo k (.assignment key v)).toList.foldl replaceFirst (topValues k assignments) := by
  by_cases hkey : key = k.name
  · subst hkey
    simp only [assignedTo, if_true, Option.toList_some, List.foldl_cons, List.foldl_nil]
    refine filterMap_setFirst (fun b => ?_) (by simp [assignedTo]) assignments
    by_cases hb : b.1 = k.name <;> simp [assignedTo, hb]
  · simp only [assignedTo, if_neg hkey, Option.toList_none, List.foldl_nil]
    refine filterMap_setFirst_other (fun b hb => ?_) (by simp [assignedTo, hkey]) assignments
    have hb' : b.1 = key := by simpa using hb
    simp [assignedTo, hb', hkey]

theorem valuesOf_mergeIntoGlobal (target : List Item) (i : Item) :
    valuesOf k (mergeIntoGlobal target i).1 =
      (assignedTo k i).toList.foldl replaceFirst (valuesOf k target) := by
  cases i with
  | block head label overrides items =>
    simp only [mergeIntoGlobal]
    split_ifs <;> simp [valuesOf, assignedTo]
  | hook phase body => simp [mergeIntoGlobal, valuesOf, assignedTo]
  | incl path => simp [mergeIntoGlobal, valuesOf, assignedTo]
  | assignment key v =>
    by_cases hkey : key = k.name
    · subst hkey
      simp only [mergeIntoGlobal, assignedTo, if_true, Option.toList_some, List.foldl_cons,
        List.foldl_nil]
      refine filterMap_setFirst (fun b => ?_) (by simp [assignedTo]) target
      cases b with
      | assignment key' v' => by_cases hb : key' = k.name <;> simp [assignedTo, hb]
      | _ => rfl
    · simp only [mergeIntoGlobal, assignedTo, if_neg hkey, Option.toList_none, List.foldl_nil]
      refine filterMap_setFirst_other (fun b hb => ?_) (by simp [assignedTo, hkey]) target
      cases b with
      | assignment key' v' =>
        have hb' : key' = key := by simpa using hb
        simp [assignedTo, hb', hkey]
      | _ => rfl

theorem valuesOf_mergeInto :
    ∀ (items target : List Item), valuesOf k (overItems mergeIntoGlobal target items).1 =
      (valuesOf k items).foldl replaceFirst (valuesOf k target)
  | [], _ => rfl
  | i :: items, target => by
    rw [overItems_cons, valuesOf_mergeInto items, valuesOf_mergeIntoGlobal, ← List.foldl_append]
    congr 1
    rw [valuesOf, valuesOf, List.filterMap_cons]
    cases assignedTo k i <;> rfl

def MergedBlock.put (head : String) (label : Option String) (items : List Item) (b : MergedBlock) :
    MergedBlock :=
  if b.head = head ∧ b.label = label then { b with items } else b

theorem MergedBlock.is_put (head head' : String) (label label' : Option String) (items : List Item)
    (b : MergedBlock) : (b.put head' label' items).is head label = b.is head label := by
  unfold MergedBlock.put
  split_ifs <;> rfl

theorem mergeBlock_cases {merged : List MergedBlock} {head : String} {label : Option String}
    {overrides : Bool} {items : List Item}
    (h : (mergeBlock merged head label overrides items).2 = []) :
    (merged.find? (MergedBlock.is head label) = none ∧ overrides = false ∧
      (mergeBlock merged head label overrides items).1 = merged ++ [⟨head, label, items⟩]) ∨
    ∃ existing items', merged.find? (MergedBlock.is head label) = some existing ∧
      (mergeBlock merged head label overrides items).1 =
        merged.map (MergedBlock.put head label items') ∧
      (overrides = true ∧ items' = items ∨ overrides = false ∧ head = "global" ∧
        items' = (overItems mergeIntoGlobal existing.items items).1) := by
  have hfind : (merged.find? fun b => b.head = head ∧ b.label = label) =
      merged.find? (MergedBlock.is head label) := rfl
  unfold mergeBlock at h ⊢
  rw [hfind] at h ⊢
  generalize merged.find? (MergedBlock.is head label) = found at h ⊢
  cases found with
  | none =>
    cases overrides with
    | true => cases h
    | false => exact .inl ⟨rfl, rfl, rfl⟩
  | some existing =>
    refine .inr ⟨existing, ?_⟩
    cases overrides with
    | true =>
      refine ⟨items, rfl, rfl, ?_⟩
      simp
    | false =>
      by_cases hhead : head = "global"
      · simp only [Bool.false_eq_true, if_false, if_pos hhead] at h ⊢
        exact ⟨_, trivial, rfl, .inr ⟨trivial, hhead, rfl⟩⟩
      · simp [hhead] at h

theorem standing_concat (p : Place) (items : List Item) (i : Item) :
    standing p (items ++ [i]) = stand p (standing p items) i := by
  rw [standing, List.foldl_append]
  rfl

theorem tracks_nil : Tracks k [] {} where
  keys := List.nodup_nil
  held p := by cases p <;> rfl
  present _ := by simp [standing]

theorem tracks_assignment {read : List Item} {m : Merged} (h : Tracks k read m) (key : String)
    (v : Value) : Tracks k (read ++ [Item.assignment key v])
      { m with assignments := mergeAssignment m.assignments key v } where
  keys := h.keys
  present label := by
    rw [standing_concat]
    exact h.present label
  held p := by
    rw [standing_concat]
    cases p with
    | block label => exact h.held (.block label)
    | top =>
      have hheld : topValues k m.assignments = heldOf k (standing .top read) := h.held .top
      have hvalues : valuesOf k [.assignment key v] =
          (assignedTo k (.assignment key v)).toList := by
        rw [valuesOf, List.filterMap_eq_flatMap_toList, List.flatMap_singleton]
      have hstand : stand .top (standing .top read) (.assignment key v) =
          standing .top read ++ [[.assignment key v]] := rfl
      rw [held, topValues_mergeAssignment, hheld, hstand]
      by_cases hnil : standing .top read = []
      · rw [hnil, List.nil_append, heldOf, heldOf, List.flatten_nil, hvalues]
        cases assignedTo k (.assignment key v) <;> rfl
      · rw [heldOf_concat _ hnil, hvalues]

section Block

variable {read : List Item} {m : Merged} {head : String} {label : Option String}
  {overrides : Bool} {items : List Item}

theorem stand_other {label' : Option String} (kept : List (List Item))
    (h : ¬(head = "global" ∧ label = label')) :
    stand (.block label') kept (.block head label overrides items) = kept := by
  rw [stand, said, if_neg h]

theorem stand_same (kept : List (List Item)) :
    stand (.block label) kept (.block "global" label overrides items) =
      if overrides then [items] else kept ++ [items] := by
  rw [stand, said, if_pos ⟨rfl, rfl⟩]
  cases overrides <;> rfl

theorem find_put (blocks : List MergedBlock) (head' : String) (label' : Option String)
    (items' : List Item) :
    (blocks.map (MergedBlock.put head label items')).find? (MergedBlock.is head' label') =
      (blocks.find? (MergedBlock.is head' label')).map (MergedBlock.put head label items') := by
  rw [List.find?_map]
  congr 2
  funext b
  exact MergedBlock.is_put _ _ _ _ _ b

theorem tracks_new (h : Tracks k read m)
    (hnone : m.blocks.find? (MergedBlock.is head label) = none) :
    Tracks k (read ++ [Item.block head label false items])
      { m with blocks := m.blocks ++ [⟨head, label, items⟩] } := by
  have hfind (label' : Option String) :
      (m.blocks ++ [MergedBlock.mk head label items]).find? (MergedBlock.is "global" label') =
        if head = "global" ∧ label = label' then some ⟨head, label, items⟩
        else m.blocks.find? (MergedBlock.is "global" label') := by
    rw [List.find?_append]
    split_ifs with hsame
    · obtain ⟨rfl, rfl⟩ := hsame
      rw [hnone]
      simp [MergedBlock.is]
    · simp [MergedBlock.is, hsame]
  refine ⟨?_, fun p => ?_, fun label' => ?_⟩
  · rw [List.map_append, List.map_singleton]
    refine List.nodup_append.2 ⟨h.keys, List.nodup_singleton _, fun a ha c hc hac => ?_⟩
    rw [List.mem_singleton.1 hc] at hac
    obtain ⟨b, hb, rfl⟩ := List.mem_map.1 ha
    have hno := List.find?_eq_none.1 hnone b hb
    simp only [Prod.mk.injEq] at hac
    simp [MergedBlock.is, hac] at hno
  · rw [standing_concat]
    cases p with
    | top => exact h.held .top
    | block label' =>
      have hheld := h.held (.block label')
      change (((m.blocks ++ [MergedBlock.mk head label items]).find?
        (MergedBlock.is "global" label')).map fun b => valuesOf k b.items).getD [] = _
      change ((m.blocks.find? (MergedBlock.is "global" label')).map
        fun b => valuesOf k b.items).getD [] = _ at hheld
      rw [hfind]
      split_ifs with hsame
      · obtain ⟨rfl, rfl⟩ := hsame
        rw [stand_same, (h.present label).1 hnone]
        rfl
      · rw [stand_other _ hsame, hheld]
  · rw [standing_concat, hfind]
    split_ifs with hsame
    · obtain ⟨rfl, rfl⟩ := hsame
      simp [stand_same]
    · rw [stand_other _ hsame]
      exact h.present label'

theorem tracks_put {existing : MergedBlock} {items' : List Item} (h : Tracks k read m)
    (hfound : m.blocks.find? (MergedBlock.is head label) = some existing)
    (hitems : overrides = true ∧ items' = items ∨ overrides = false ∧ head = "global" ∧
      items' = (overItems mergeIntoGlobal existing.items items).1) :
    Tracks k (read ++ [Item.block head label overrides items])
      { m with blocks := m.blocks.map (MergedBlock.put head label items') } := by
  refine ⟨?_, fun p => ?_, fun label' => ?_⟩
  · have hkey : (fun b => (b.head, b.label)) ∘ MergedBlock.put head label items' =
        fun b : MergedBlock => (b.head, b.label) := by
      funext b
      simp only [Function.comp, MergedBlock.put]
      split_ifs <;> rfl
    rw [List.map_map, hkey]
    exact h.keys
  · rw [standing_concat]
    cases p with
    | top => exact h.held .top
    | block label' =>
      have hheld := h.held (.block label')
      change (((m.blocks.map (MergedBlock.put head label items')).find?
        (MergedBlock.is "global" label')).map fun b => valuesOf k b.items).getD [] = _
      change ((m.blocks.find? (MergedBlock.is "global" label')).map
        fun b => valuesOf k b.items).getD [] = _ at hheld
      rw [find_put]
      by_cases hsame : head = "global" ∧ label = label'
      · obtain ⟨rfl, rfl⟩ := hsame
        have hne : standing (.block label) read ≠ [] := fun hnil => by
          rw [(h.present label).2 hnil] at hfound
          cases hfound
        have his : existing.head = "global" ∧ existing.label = label := by
          simpa [MergedBlock.is] using List.find?_some hfound
        rw [hfound] at hheld ⊢
        rw [stand_same]
        simp only [Option.map_some, Option.getD_some, MergedBlock.put, if_pos his] at hheld ⊢
        rcases hitems with ⟨rfl, rfl⟩ | ⟨rfl, -, rfl⟩
        · rfl
        · rw [valuesOf_mergeInto, hheld]
          exact (heldOf_concat items hne).symm
      · rw [stand_other _ hsame, ← hheld]
        rcases hother : m.blocks.find? (MergedBlock.is "global" label') with _ | b
        · rfl
        · have hb : b.head = "global" ∧ b.label = label' := by
            simpa [MergedBlock.is] using List.find?_some hother
          have hput : ¬(b.head = head ∧ b.label = label) := fun hb' =>
            hsame ⟨hb'.1.symm.trans hb.1, hb'.2.symm.trans hb.2⟩
          simp only [Option.map_some, MergedBlock.put, if_neg hput]
  · rw [standing_concat, find_put, Option.map_eq_none_iff]
    by_cases hsame : head = "global" ∧ label = label'
    · obtain ⟨rfl, rfl⟩ := hsame
      rw [stand_same, hfound]
      cases overrides <;> simp
    · rw [stand_other _ hsame]
      exact h.present label'

end Block

theorem tracks_step {read : List Item} {m : Merged} {i : Item} (h : Tracks k read m)
    (hok : (mergeSourceItem m i).2 = []) : Tracks k (read ++ [i]) (mergeSourceItem m i).1 := by
  cases i with
  | assignment key v => exact tracks_assignment h key v
  | block head label overrides items =>
    rcases mergeBlock_cases hok with
      ⟨hnone, rfl, heq⟩ | ⟨existing, items', hfound, heq, hitems⟩
    · simp only [mergeSourceItem, mergeItem, heq]
      exact tracks_new h hnone
    · simp only [mergeSourceItem, mergeItem, heq]
      exact tracks_put h hfound hitems
  | hook phase body => cases hok
  | incl path => cases hok

theorem tracks_run :
    ∀ {items read : List Item} {m : Merged}, Tracks k read m →
      (overItems mergeSourceItem m items).2 = [] →
      Tracks k (read ++ items) (overItems mergeSourceItem m items).1
  | [], read, m, h, _ => by
    rw [List.append_nil]
    exact h
  | i :: items, read, m, h, hok => by
    rw [overItems_cons] at hok ⊢
    obtain ⟨hi, his⟩ := List.append_eq_nil_iff.1 hok
    have hrun := tracks_run (tracks_step h hi) his
    rwa [List.append_assoc] at hrun

/-- The merged tree holds what stands of the files, with the first value of the block the others
were merged into replaced. -/
theorem held_mergeSources {files : List (List Item)} (h : (mergeSources files).2 = []) :
    Tracks k files.flatten (mergeSources files).1 :=
  tracks_run tracks_nil h

/-! ## Later files win -/

/-- The block the others were merged into assigns the key at most once, or none of the others
assigns it. -/
def Unrepeated (k : ScalarKey) : List (List Item) → Prop
  | [] => True
  | first :: rest => (valuesOf k first).length ≤ 1 ∨ valuesOf k rest.flatten = []

theorem foldl_replaceFirst {first : List Value} (h : first.tail = []) :
    ∀ {vs : List Value}, vs ≠ [] → (vs.foldl replaceFirst first).getLast? = vs.getLast?
  | [v], _ => by simp [replaceFirst, h]
  | v :: w :: vs, _ => by
    have htail : (replaceFirst first v).tail = [] := by
      rw [replaceFirst, List.tail_cons, h]
    rw [List.foldl_cons, foldl_replaceFirst htail (List.cons_ne_nil w vs), List.getLast?_cons_cons]

theorem getLast_heldOf {statements : List (List Item)} (h : Unrepeated k statements) :
    (heldOf k statements).getLast? = (valuesOf k statements.flatten).getLast? := by
  cases statements with
  | nil => rfl
  | cons first rest =>
    rw [heldOf, List.flatten_cons, valuesOf_append]
    by_cases hrest : valuesOf k rest.flatten = []
    · rw [hrest, List.append_nil, List.foldl_nil]
    · have htail : (valuesOf k first).tail = [] := by
        have hone := h.resolve_right hrest
        match valuesOf k first, hone with
        | [], _ => rfl
        | [_], _ => rfl
      rw [foldl_replaceFirst htail hrest, List.getLast?_append_of_ne_nil _ hrest]

theorem mem_standing {p : Place} {items : List Item} {statements : List Item}
    (h : statements ∈ standing p items) : ∃ i ∈ items, ∃ s ∈ said p i, s.2 = statements := by
  have hstep (items : List Item) (kept : List (List Item))
      (hmem : statements ∈ items.foldl (stand p) kept) :
      statements ∈ kept ∨ ∃ i ∈ items, ∃ s ∈ said p i, s.2 = statements := by
    induction items generalizing kept with
    | nil => exact .inl hmem
    | cons i items ih =>
      rcases ih _ hmem with hkept | ⟨j, hj, hs⟩
      · unfold stand at hkept
        split at hkept
        case h_1 => exact .inl hkept
        case h_2 s hs =>
          exact .inr ⟨i, List.mem_cons_self, _, hs, (List.mem_singleton.1 hkept).symm⟩
        case h_3 s hs =>
          rcases List.mem_append.1 hkept with hkept | hkept
          · exact .inl hkept
          · exact .inr ⟨i, List.mem_cons_self, _, hs, (List.mem_singleton.1 hkept).symm⟩
      · exact .inr ⟨j, List.mem_cons_of_mem _ hj, hs⟩
  exact (hstep items [] h).resolve_left List.not_mem_nil

theorem valuesOf_flatten_eq_nil {statements : List (List Item)}
    (h : ∀ items ∈ statements, valuesOf k items = []) : valuesOf k statements.flatten = [] := by
  rw [valuesOf, List.filterMap_eq_nil_iff]
  intro i hi
  obtain ⟨items, hitems, hi⟩ := List.mem_flatten.1 hi
  exact List.filterMap_eq_nil_iff.1 (h items hitems) i hi

theorem heldOf_eq_nil {statements : List (List Item)}
    (h : ∀ items ∈ statements, valuesOf k items = []) : heldOf k statements = [] := by
  cases statements with
  | nil => rfl
  | cons first rest =>
    rw [heldOf, h first List.mem_cons_self,
      valuesOf_flatten_eq_nil fun items hitems => h items (List.mem_cons_of_mem _ hitems)]
    rfl

theorem blockValues_eq_held {m : Merged}
    (hkeys : (m.blocks.map fun b => (b.head, b.label)).Nodup) {b : MergedBlock} (hb : b ∈ m.blocks)
    (hhead : b.head = "global") : blockValues k b = held k m (.block b.label) := by
  have hfound : m.blocks.find? (fun b' => b'.head = "global" ∧ b'.label = b.label) = some b := by
    rcases hf : m.blocks.find? (fun b' => b'.head = "global" ∧ b'.label = b.label) with _ | b'
    · have hno := List.find?_eq_none.1 hf b hb
      simp [hhead] at hno
    · have hsame := List.find?_some hf
      simp only [decide_eq_true_eq] at hsame
      have hkey : (b'.head, b'.label) = (b.head, b.label) := by rw [hsame.1, hsame.2, hhead]
      rw [hf, List.inj_on_of_nodup_map hkeys (List.mem_of_find?_eq_some hf) hb hkey]
  rw [blockValues, if_pos hhead, held, hfound]
  rfl

theorem lowered_eq_held {m : Merged} {p : Place}
    (hkeys : (m.blocks.map fun b => (b.head, b.label)).Nodup) (hother : ∀ q ≠ p, held k m q = []) :
    topValues k m.assignments ++ m.blocks.flatMap (blockValues k) = held k m p := by
  have hempty (b : MergedBlock) (hb : b ∈ m.blocks) (hne : p ≠ .block b.label ∨ b.head ≠ "global") :
      blockValues k b = [] := by
    by_cases hhead : b.head = "global"
    · rw [blockValues_eq_held hkeys hb hhead]
      exact hother _ (hne.resolve_right fun h => h hhead).symm
    · rw [blockValues, if_neg hhead]
  cases p with
  | top =>
    have hblocks : m.blocks.flatMap (blockValues k) = [] :=
      List.flatMap_eq_nil_iff.2 fun b hb => hempty b hb (.inl (by simp))
    rw [hblocks, List.append_nil, held]
  | block label =>
    have htop : topValues k m.assignments = [] := hother .top (by simp)
    rw [htop, List.nil_append]
    by_cases hthere : ∃ b ∈ m.blocks, b.head = "global" ∧ b.label = label
    · obtain ⟨b, hb, hhead, rfl⟩ := hthere
      rw [← blockValues_eq_held hkeys hb hhead]
      obtain ⟨before, after, hsplit⟩ := List.append_of_mem hb
      have hrest (b' : MergedBlock) (hb' : b' ∈ before ++ after) : blockValues k b' = [] := by
        refine hempty b' (hsplit ▸ ?_) ?_
        · exact (List.perm_middle.mem_iff).2 (List.mem_cons_of_mem _ hb')
        · by_contra hsame
          simp only [ne_eq, Place.block.injEq, not_or, not_not] at hsame
          rw [hsplit, List.perm_middle.map _ |>.nodup_iff, List.map_cons, List.nodup_cons] at hkeys
          refine hkeys.1 (List.mem_map.2 ⟨b', hb', ?_⟩)
          rw [hsame.1, hsame.2, hhead]
      have hnil {l : List MergedBlock} (hl : ∀ b' ∈ l, blockValues k b' = []) :
          l.flatMap (blockValues k) = [] := List.flatMap_eq_nil_iff.2 hl
      rw [hsplit, List.flatMap_append, List.flatMap_cons,
        hnil fun b' hb' => hrest b' (List.mem_append_left _ hb'),
        hnil fun b' hb' => hrest b' (List.mem_append_right _ hb'), List.nil_append, List.append_nil]
    · have hnone : m.blocks.find? (fun b => b.head = "global" ∧ b.label = label) = none :=
        List.find?_eq_none.2 fun b hb hsame => hthere ⟨b, hb, by simpa using hsame⟩
      rw [held, hnone]
      refine List.flatMap_eq_nil_iff.2 fun b hb => hempty b hb ?_
      by_contra hsame
      simp only [ne_eq, Place.block.injEq, not_or, not_not] at hsame
      exact hthere ⟨b, hb, hsame.2, hsame.1.symm⟩

theorem direct_mergeBlock {blocks : List MergedBlock} {head : String} {label : Option String}
    {overrides : Bool} {items : List Item} (hd : Direct k blocks)
    (hi : head = "global" → ∀ j ∈ items, writesBesides k j = false)
    (hok : (mergeBlock blocks head label overrides items).2 = []) :
    Direct k (mergeBlock blocks head label overrides items).1 := by
  rcases mergeBlock_cases hok with ⟨-, -, heq⟩ | ⟨existing, items', hfound, heq, hitems⟩
  · rw [heq]
    intro b hb hhead
    rcases List.mem_append.1 hb with hb | hb
    · exact hd b hb hhead
    · obtain rfl := List.mem_singleton.1 hb
      exact hi hhead
  · rw [heq]
    intro b hb hhead
    obtain ⟨b', hb', rfl⟩ := List.mem_map.1 hb
    unfold MergedBlock.put at hhead ⊢
    split_ifs at hhead ⊢ with hsame
    · have hglobal : head = "global" := hsame.1.symm.trans hhead
      rcases hitems with ⟨-, rfl⟩ | ⟨-, -, rfl⟩
      · exact hi hglobal
      · have hexisting : existing.head = head ∧ existing.label = label := by
          simpa [MergedBlock.is] using List.find?_some hfound
        refine overItems_invariant (P := fun l => ∀ j ∈ l, writesBesides k j = false) items
          (hd existing (List.mem_of_find?_eq_some hfound) (hexisting.1.trans hglobal))
          fun i hmem target ht j hj => ?_
        rcases mem_mergeIntoGlobal hj with rfl | hj
        · exact hi hglobal j hmem
        · exact ht j hj
    · exact hd b' hb' hhead

theorem direct_mergeSources {items : List Item}
    (h : ∀ label, ∀ i ∈ items, ∀ s ∈ said (.block label) i, ∀ j ∈ s.2, writesBesides k j = false) :
    ∀ {m : Merged}, Direct k m.blocks → (overItems mergeSourceItem m items).2 = [] →
      Direct k (overItems mergeSourceItem m items).1.blocks := by
  induction items with
  | nil => exact fun hd _ => hd
  | cons i items ih =>
    intro m hd hok
    rw [overItems_cons] at hok ⊢
    obtain ⟨hi, his⟩ := List.append_eq_nil_iff.1 hok
    refine ih (fun label j hj => h label j (List.mem_cons_of_mem _ hj)) ?_ his
    cases i with
    | assignment key v => exact hd
    | block head label overrides inner =>
      refine direct_mergeBlock hd (fun hhead => ?_) hi
      exact h label _ List.mem_cons_self (overrides, inner) (by simp [said, hhead])
    | hook phase body => cases hi
    | incl path => cases hi

/-- The settings compiled hold, for a key written at one place, what the last assignment standing
there reads, where the block the others were merged into does not repeat it. -/
theorem lastRead_compiled {p : Place} {files : List (List Item)} {g : Globals}
    (h : Compiled files g) (hp : OnlyAt k p files.flatten)
    (hu : Unrepeated k (standing p files.flatten)) :
    LastRead k (valuesOf k (standing p files.flatten).flatten) (k.get {}) (k.get g) := by
  obtain ⟨hmerge, hlower⟩ := h
  have htracks : Tracks k files.flatten (mergeSources files).1 := held_mergeSources hmerge
  have hother (q : Place) (hq : q ≠ p) : held k (mergeSources files).1 q = [] := by
    rw [htracks.held q]
    refine heldOf_eq_nil fun statements hmem => ?_
    obtain ⟨i, hi, s, hs, rfl⟩ := mem_standing hmem
    exact hp.elsewhere q hq i hi s hs
  have hdirect : Direct k (mergeSources files).1.blocks :=
    direct_mergeSources hp.directly (m := {}) (fun _ hb => by cases hb) hmerge
  have hlast := lastRead_lowerGlobals hdirect (by rw [hlower])
  rw [lowered_eq_held htracks.keys hother, htracks.held p, hlower] at hlast
  unfold LastRead at hlast ⊢
  rwa [getLast_heldOf hu] at hlast

/-! ## Files that do not mention the key -/

/-- What a file says at a place neither overrides the blocks before it nor assigns the key. -/
def Silent (k : ScalarKey) (p : Place) (file : List Item) : Prop :=
  ∀ i ∈ file, ∀ s ∈ said p i, s.1 = false ∧ valuesOf k s.2 = []

theorem values_stand {p : Place} {kept kept' : List (List Item)} (i : Item)
    (h : valuesOf k kept.flatten = valuesOf k kept'.flatten) :
    valuesOf k (stand p kept i).flatten = valuesOf k (stand p kept' i).flatten := by
  unfold stand
  split
  · exact h
  · rfl
  · simp only [List.flatten_append, valuesOf_append, h]

theorem values_foldl_stand {p : Place} :
    ∀ {items : List Item} {kept kept' : List (List Item)},
      valuesOf k kept.flatten = valuesOf k kept'.flatten →
      valuesOf k (items.foldl (stand p) kept).flatten =
        valuesOf k (items.foldl (stand p) kept').flatten
  | [], _, _, h => h
  | i :: items, kept, kept', h => by
    rw [List.foldl_cons, List.foldl_cons]
    exact values_foldl_stand (values_stand i h)

theorem values_foldl_silent {p : Place} :
    ∀ {file : List Item} {kept : List (List Item)}, Silent k p file →
      valuesOf k (file.foldl (stand p) kept).flatten = valuesOf k kept.flatten
  | [], _, _ => rfl
  | i :: file, kept, h => by
    rw [List.foldl_cons, values_foldl_silent fun j hj => h j (List.mem_cons_of_mem _ hj)]
    unfold stand
    split
    case h_1 => rfl
    case h_2 items hs => exact absurd (h i List.mem_cons_self _ hs).1 (by simp)
    case h_3 items hs =>
      have hnil : valuesOf k items = [] := (h i List.mem_cons_self _ hs).2
      simp [List.flatten_append, valuesOf_append, hnil]

/-- A file that is silent on a key can be left out. -/
theorem values_standing_silent {p : Place} {before after : List (List Item)} {file : List Item}
    (h : Silent k p file) :
    valuesOf k (standing p (before ++ file :: after).flatten).flatten =
      valuesOf k (standing p (before ++ after).flatten).flatten := by
  simp only [standing, List.flatten_append, List.flatten_cons, List.foldl_append]
  exact values_foldl_stand (values_foldl_silent h)

/-- What stands at one place still does when a file is taken out. -/
theorem OnlyAt.without {p : Place} {before after : List (List Item)} {file : List Item}
    (h : OnlyAt k p (before ++ file :: after).flatten) : OnlyAt k p (before ++ after).flatten := by
  have hmem (i : Item) (hi : i ∈ (before ++ after).flatten) :
      i ∈ (before ++ file :: after).flatten := by
    simp only [List.flatten_append, List.flatten_cons, List.mem_append] at hi ⊢
    tauto
  exact ⟨fun q hq i hi => h.elsewhere q hq i (hmem i hi), fun l i hi => h.directly l i (hmem i hi)⟩

/-- The last value that can be read is one value. -/
theorem LastRead.unique {values : List Value} {before a b : k.Setting}
    (ha : LastRead k values before a) (hb : LastRead k values before b) : a = b := by
  unfold LastRead at ha hb
  split at ha
  · rename_i v hv
    simp only [hv] at hb
    rw [ha] at hb
    exact Except.ok.inj hb
  · rename_i hv
    simp only [hv] at hb
    rw [ha, hb]

/-- Later files win. A key written at one place, the top level or the `global` blocks of one label,
holds what its last assignment in file order and then source order reads, an `override` discarding
what its block said before, and its default where none stands. A file that neither assigns the
key nor overrides changes nothing for it. The block the others are merged into is one that assigns
the key once, or the only one to assign it. -/
theorem later_wins (k : ScalarKey) (p : Place) {files : List (List Item)} {g : Globals}
    (h : Compiled files g) (hp : OnlyAt k p files.flatten)
    (hu : Unrepeated k (standing p files.flatten)) :
    (match (valuesOf k (standing p files.flatten).flatten).getLast? with
      | some v => k.read v = .ok (k.get g)
      | none => k.get g = k.get {}) ∧
    ∀ before file after g', files = before ++ file :: after → Silent k p file →
      Compiled (before ++ after) g' → Unrepeated k (standing p (before ++ after).flatten) →
      k.get g' = k.get g := by
  have hlast := lastRead_compiled h hp hu
  refine ⟨hlast, ?_⟩
  rintro before file after g' rfl hsilent h' hu'
  rw [values_standing_silent hsilent] at hlast
  exact (lastRead_compiled h' hp.without hu').unique hlast

-- a key repeated in the first block : the later file replaces its first assignment, not its last
example : Compiled
    [[.block "global" none false
        [.assignment "confirm" (.number 1), .assignment "confirm" (.number 2)]],
      [.block "global" none false [.assignment "confirm" (.number 3)]]]
    { confirm := some 2 } :=
  ⟨by decide, by decide⟩

/-- A window of thirty seconds, and a later file that makes it two minutes. -/
def confirmFiles : List (List Item) :=
  [[.block "global" none false [.assignment "confirm" (.number 30)]],
    [.block "global" none false [.assignment "confirm" (.number 120)]]]

theorem confirm_later_wins :
    Compiled confirmFiles { confirm := some 120 } ∧
      ScalarKey.confirm.read (.number 120) =
        .ok (ScalarKey.confirm.get { confirm := some 120 }) := by
  have hcompiled : Compiled confirmFiles { confirm := some 120 } := ⟨by decide, by decide⟩
  have honly : OnlyAt .confirm (.block none) confirmFiles.flatten := by
    refine ⟨fun q hq i hi s hs => ?_, fun label i hi s hs j hj => ?_⟩
    · rcases List.mem_pair.1 hi with rfl | rfl <;> cases q with
      | top => cases hs
      | block label =>
        have hlabel : none ≠ label := fun h => hq (by rw [h])
        simp [said, hlabel] at hs
    · rcases List.mem_pair.1 hi with rfl | rfl <;>
      · simp only [said, true_and, Option.ite_none_right_eq_some, Option.mem_def] at hs
        obtain ⟨-, hs⟩ := hs
        cases hs
        rw [List.mem_singleton.1 hj]
        rfl
  exact ⟨hcompiled, (later_wins .confirm (.block none) hcompiled honly (.inl (by decide))).1⟩

/-- The values written for a key anywhere, in file order and then source order. -/
def written (k : ScalarKey) (items : List Item) : List Value :=
  items.flatMap fun
    | .block head _ _ inner => if head = "global" then valuesOf k inner else []
    | i => (assignedTo k i).toList

/-- A hostname, and a later file that overrides the block it was in without a word of it. -/
def overriddenFiles : List (List Item) :=
  [[.block "global" none false [.assignment "hostname" (.string "gate")]],
    [.block "global" none true []]]

theorem overridden_setting_lost :
    Compiled overriddenFiles {} ∧
      (written .hostname overriddenFiles.flatten).getLast? = some (.string "gate") ∧
      ScalarKey.hostname.read (.string "gate") ≠ .ok (ScalarKey.hostname.get {}) ∧
      (∀ file ∈ overriddenFiles.drop 1, written .hostname file = []) ∧
      Compiled (overriddenFiles.take 1) { hostname := .static "gate" } := by
  refine ⟨⟨by decide, by decide⟩, rfl, ?_, ?_, ⟨by decide, by decide⟩⟩
  · intro h
    cases h
  · intro file hfile
    rw [List.mem_singleton.1 hfile]
    rfl

end Netcfgd.Compile
