import Netcfgd.ServerFile

/-!
# What dnsmasq is given to read

Nothing of a downloaded list becomes a directive of its own : the block file is read back as the
lines it was made of, and every name in it is one `blockListName` accepts. But a NUL byte in a line
of a list, behind its first, makes `read_list` take the line for the start of a long one, and skip
the line after it. `names_heardIn` says line by line of a file what is read of it (`taken`), and a
name is blocked where it stands on such a line, or is lost with those that are not
(`block_lists_and_server_file`).
-/

namespace Netcfgd.DhcpServer

open Netcfgd.Resolver (Text unlines)

/-! ## The lines of a list -/

/-- A line without the first 1023 bytes of it, and the next, as long as these begin with a NUL : the
reader takes each such piece for an empty line. -/
def led (p : Text) : Text :=
  if p.head? = some '\x00' ∧ lineMax ≤ p.length then led (p.drop lineMax) else p
termination_by p.length
decreasing_by
  have : 0 < lineMax := by decide
  rw [List.length_drop]
  omega

/-- A line that takes the next one with it : a short one with a NUL byte, not as its first. -/
def Skips (p : Text) : Prop :=
  (led p).length < lineMax ∧ '\x00' ∈ led p ∧ (led p).head? ≠ some '\x00'

instance : DecidablePred Skips := fun _ => inferInstanceAs (Decidable (_ ∧ _ ∧ _))

/-- The texts of a file's lines that are read : the short ones without a NUL byte that no line
skips, and of the last one what is ahead of its NUL. -/
def taken : List Text → List Text
  | [] => []
  | [p] => if (led p).length < lineMax then [(led p).takeWhile (· ≠ '\x00')] else []
  | p :: q :: ls =>
    if Skips p then taken ls
    else if (led p).length < lineMax ∧ '\x00' ∉ led p then led p :: taken (q :: ls)
    else taken (q :: ls)

/-- The lines with a NUL byte, and the lines that are skipped after one. -/
def lost : List Text → List Text
  | [] => []
  | [p] => if '\x00' ∈ p then [p] else []
  | p :: q :: ls =>
    if Skips p then p :: q :: lost ls
    else if '\x00' ∈ p then p :: lost (q :: ls)
    else lost (q :: ls)

theorem takeWhile_no_nul {l : Text} (h : '\x00' ∉ l) : l.takeWhile (· ≠ '\x00') = l := by
  rw [List.takeWhile_eq_self_iff]
  intro c hc
  simpa using fun heq : c = '\x00' => h (heq ▸ hc)

theorem led_of_short {p : Text} (h : p.length < lineMax) : led p = p := by
  rw [led, if_neg fun hp => absurd hp.2 (by omega)]

theorem led_drop {p : Text} (hhead : p.head? = some '\x00') (hlong : lineMax ≤ p.length) :
    led (p.drop lineMax) = led p := by
  rw [led.eq_1 p, if_pos ⟨hhead, hlong⟩]

/-- A line that is lost is a line of the file. -/
theorem mem_of_mem_lost {l : Text} : ∀ {ls : List Text}, l ∈ lost ls → l ∈ ls
  | [], h => by cases h
  | [p], h => by
    unfold lost at h
    split_ifs at h
    · exact h
    · cases h
  | p :: q :: ls, h => by
    unfold lost at h
    split_ifs at h
    · rcases List.mem_cons.1 h with rfl | h
      · exact List.mem_cons_self
      · rcases List.mem_cons.1 h with rfl | h
        · exact List.mem_cons_of_mem p List.mem_cons_self
        · exact List.mem_cons_of_mem p (List.mem_cons_of_mem q (mem_of_mem_lost h))
    · rcases List.mem_cons.1 h with rfl | h
      · exact List.mem_cons_self
      · exact List.mem_cons_of_mem p (mem_of_mem_lost h)
    · exact List.mem_cons_of_mem p (mem_of_mem_lost h)

/-- A line that fits is lost or taken. -/
theorem mem_lost_or_taken {l : Text} (hshort : l.length < lineMax) : ∀ {ls : List Text}, l ∈ ls →
    l ∈ lost ls ∨ l ∈ taken ls
  | [], h => by cases h
  | [p], h => by
    obtain rfl := List.mem_singleton.1 h
    unfold lost taken
    rw [led_of_short hshort, if_pos hshort]
    split_ifs with hnul
    · exact .inl List.mem_cons_self
    · rw [takeWhile_no_nul hnul]
      exact .inr List.mem_cons_self
  | p :: q :: ls, h => by
    unfold lost taken
    by_cases hskips : Skips p
    · rw [if_pos hskips, if_pos hskips]
      rcases List.mem_cons.1 h with rfl | h
      · exact .inl List.mem_cons_self
      · rcases List.mem_cons.1 h with rfl | h
        · exact .inl (List.mem_cons_of_mem p List.mem_cons_self)
        · exact (mem_lost_or_taken hshort h).imp_left fun h =>
            List.mem_cons_of_mem p (List.mem_cons_of_mem q h)
    · rw [if_neg hskips, if_neg hskips]
      rcases List.mem_cons.1 h with rfl | h
      · rw [led_of_short hshort]
        split_ifs with hnul hclear hclear
        · exact .inl List.mem_cons_self
        · exact .inl List.mem_cons_self
        · exact .inr List.mem_cons_self
        · exact absurd ⟨hshort, hnul⟩ hclear
      · rcases mem_lost_or_taken hshort h with h | h
        · left
          split_ifs
          · exact List.mem_cons_of_mem p h
          · exact h
        · right
          split_ifs
          · exact List.mem_cons_of_mem _ h
          · exact h

/-! ## The reader -/

section Reader

variable {p rest : Text}

theorem fgets_line (hp : '\n' ∉ p) : ∀ {n : ℕ}, p.length < n →
    fgets n (p ++ '\n' :: rest) = (p ++ ['\n'], rest) := by
  induction p with
  | nil =>
    intro n hn
    obtain ⟨n, rfl⟩ := Nat.exists_eq_add_one_of_ne_zero (by simpa using hn : 0 < n).ne'
    rfl
  | cons c p ih =>
    intro n hn
    obtain ⟨n, rfl⟩ := Nat.exists_eq_add_one_of_ne_zero (by omega : n ≠ 0)
    have hc : c ≠ '\n' := fun h => hp (h ▸ List.mem_cons_self)
    have hrest := ih (fun h => hp (List.mem_cons_of_mem c h)) (n := n) (by simpa using hn)
    rw [List.cons_append, fgets, if_neg hc, hrest]
    rfl

theorem fgets_last (hp : '\n' ∉ p) : ∀ {n : ℕ}, p.length < n → fgets n p = (p, []) := by
  induction p with
  | nil =>
    intro n hn
    obtain ⟨n, rfl⟩ := Nat.exists_eq_add_one_of_ne_zero (by simpa using hn : 0 < n).ne'
    rfl
  | cons c p ih =>
    intro n hn
    obtain ⟨n, rfl⟩ := Nat.exists_eq_add_one_of_ne_zero (by omega : n ≠ 0)
    have hc : c ≠ '\n' := fun h => hp (h ▸ List.mem_cons_self)
    rw [fgets, if_neg hc, ih (fun h => hp (List.mem_cons_of_mem c h)) (by simpa using hn)]

theorem fgets_long (hp : '\n' ∉ p) : ∀ {n : ℕ}, n ≤ p.length →
    fgets n (p ++ rest) = (p.take n, p.drop n ++ rest) := by
  induction p with
  | nil =>
    intro n hn
    obtain rfl : n = 0 := by simpa using hn
    rfl
  | cons c p ih =>
    intro n hn
    cases n with
    | zero => rfl
    | succ n =>
      have hc : c ≠ '\n' := fun h => hp (h ▸ List.mem_cons_self)
      rw [List.cons_append, fgets, if_neg hc,
        ih (fun h => hp (List.mem_cons_of_mem c h)) (by simpa using hn)]
      rfl

end Reader

theorem exists_first_line (bytes : Text) :
    ∃ p, '\n' ∉ p ∧ (bytes = p ∨ ∃ rest, bytes = p ++ '\n' :: rest) := by
  refine ⟨bytes.takeWhile (· ≠ '\n'), fun h => ?_, ?_⟩
  · exact absurd (List.mem_takeWhile_imp h) (by simp)
  · cases hdrop : bytes.dropWhile (· ≠ '\n') with
    | nil =>
      left
      conv_lhs => rw [← List.takeWhile_append_dropWhile (p := fun c : Char => decide (c ≠ '\n'))
        (l := bytes), hdrop, List.append_nil]
    | cons c rest =>
      have hhead := List.head?_dropWhile_not (fun c : Char => decide (c ≠ '\n')) bytes
      rw [hdrop] at hhead
      have hc : c = '\n' := by simpa using hhead
      right
      refine ⟨rest, ?_⟩
      conv_lhs => rw [← List.takeWhile_append_dropWhile (p := fun c : Char => decide (c ≠ '\n'))
        (l := bytes), hdrop, hc]

theorem splitOn_line {p rest : Text} (hp : '\n' ∉ p) :
    (p ++ '\n' :: rest).splitOn '\n' = p :: rest.splitOn '\n' :=
  List.splitOn_append_cons_self_of_not_mem hp rest

theorem splitOn_last {p : Text} (hp : '\n' ∉ p) : p.splitOn '\n' = [p] := by
  rw [List.splitOn_eq_splitOnP, List.splitOnP_eq_singleton]
  intro c hc
  simpa using fun h : c = '\n' => hp (h ▸ hc)

theorem skip_line {p rest : Text} (hp : '\n' ∉ p) :
    ((p ++ '\n' :: rest).dropWhile (· ≠ '\n')).drop 1 = rest := by
  rw [List.dropWhile_append_of_pos fun c hc => by simpa using fun h : c = '\n' => hp (h ▸ hc)]
  simp

theorem heardIn_succ {fuel : ℕ} {bytes line rest : Text} (hne : bytes ≠ [])
    (hread : fgets lineMax bytes = (line, rest)) :
    heardIn (fuel + 1) bytes =
      if line.takeWhile (· ≠ '\x00') ≠ [] ∧
          (line.takeWhile (· ≠ '\x00')).getLast? ≠ some '\n' ∧
          ¬(line.length < lineMax ∧ line.getLast? ≠ some '\n') then
        heardIn fuel ((rest.dropWhile (· ≠ '\n')).drop 1)
      else
        (if (line.takeWhile (· ≠ '\x00')).getLast? = some '\n' then
          (line.takeWhile (· ≠ '\x00')).dropLast else line.takeWhile (· ≠ '\x00')) ::
          heardIn fuel rest := by
  cases bytes with
  | nil => exact absurd rfl hne
  | cons c bytes =>
    rw [heardIn, hread]
    exact fun h => hne h

theorem getLast?_ne_newline {p : Text} (hp : '\n' ∉ p) : p.getLast? ≠ some '\n' :=
  fun h => hp (List.mem_of_getLast? h)

theorem not_newline_of_nul {p : Text} (hp : '\n' ∉ p) :
    '\n' ∉ p.takeWhile (· ≠ '\x00') :=
  fun h => hp ((List.takeWhile_prefix _).mem h)

theorem takeWhile_nul {p : Text} (h : '\x00' ∈ p) :
    (p ++ ['\n']).takeWhile (· ≠ '\x00') = p.takeWhile (· ≠ '\x00') := by
  induction p with
  | nil => cases h
  | cons c p ih =>
    rw [List.cons_append]
    by_cases hc : c = '\x00'
    · simp [hc]
    · rw [List.takeWhile_cons_of_pos (by simpa using hc), List.takeWhile_cons_of_pos
        (by simpa using hc), ih ((List.mem_cons.1 h).resolve_left fun heq => hc heq.symm)]

theorem takeWhile_eq_nil {l : Text} (hne : l ≠ []) :
    l.takeWhile (· ≠ '\x00') = [] ↔ l.head? = some '\x00' := by
  cases l with
  | nil => exact absurd rfl hne
  | cons c l => by_cases hc : c = '\x00' <;> simp [hc]

section Steps

variable {fuel : ℕ} {p rest : Text}

theorem heardIn_line (hp : '\n' ∉ p) (hshort : p.length < lineMax) (hnul : '\x00' ∉ p) :
    heardIn (fuel + 1) (p ++ '\n' :: rest) = p :: heardIn fuel rest := by
  have hline : '\x00' ∉ p ++ ['\n'] := by simp [hnul]
  rw [heardIn_succ (by simp) (fgets_line hp hshort), takeWhile_no_nul hline,
    if_neg fun h => h.2.1 (by simp), if_pos (by simp)]
  simp

theorem heardIn_nul (hp : '\n' ∉ p) (hshort : p.length < lineMax) (hnul : '\x00' ∈ p) :
    heardIn (fuel + 1) (p ++ '\n' :: rest) =
      if p.head? = some '\x00' then [] :: heardIn fuel rest
      else heardIn fuel ((rest.dropWhile (· ≠ '\n')).drop 1) := by
  have hne : p ≠ [] := List.ne_nil_of_mem hnul
  rw [heardIn_succ (by simp) (fgets_line hp hshort), takeWhile_nul hnul]
  by_cases hhead : p.head? = some '\x00'
  · rw [if_pos hhead, (takeWhile_eq_nil hne).2 hhead, if_neg fun h => h.1 rfl]
    rfl
  · rw [if_neg hhead, if_pos ⟨mt (takeWhile_eq_nil hne).1 hhead,
      getLast?_ne_newline (not_newline_of_nul hp), by simp⟩]

theorem heardIn_long {tail : Text} (hp : '\n' ∉ p) (hlong : lineMax ≤ p.length) :
    heardIn (fuel + 1) (p ++ tail) =
      if p.head? = some '\x00' then [] :: heardIn fuel (p.drop lineMax ++ tail)
      else heardIn fuel (((p.drop lineMax ++ tail).dropWhile (· ≠ '\n')).drop 1) := by
  have htake : '\n' ∉ p.take lineMax := fun h => hp (List.mem_of_mem_take h)
  have hfull : (p.take lineMax).length = lineMax := by rw [List.length_take, min_eq_left hlong]
  have hne : p.take lineMax ≠ [] := List.ne_nil_of_length_pos (by rw [hfull]; decide)
  have hbytes : p ++ tail ≠ [] := List.append_ne_nil_of_left_ne_nil
    (fun h => hne (by rw [h]; rfl)) tail
  have hhead : (p.take lineMax).head? = p.head? := by
    rw [List.head?_take, if_neg (by decide)]
  rw [heardIn_succ hbytes (fgets_long hp hlong)]
  by_cases hnul : p.head? = some '\x00'
  · rw [if_pos hnul, (takeWhile_eq_nil hne).2 (hhead.trans hnul), if_neg fun h => h.1 rfl]
    rfl
  · rw [if_neg hnul, if_pos ⟨fun h => hnul (hhead ▸ (takeWhile_eq_nil hne).1 h),
      getLast?_ne_newline (not_newline_of_nul htake), fun h => by omega⟩]

theorem heardIn_last (hp : '\n' ∉ p) (hne : p ≠ []) (hshort : p.length < lineMax) :
    heardIn (fuel + 1) p = [p.takeWhile (· ≠ '\x00')] := by
  rw [heardIn_succ hne (fgets_last hp hshort), if_neg fun h => h.2.2
    ⟨hshort, getLast?_ne_newline hp⟩, if_neg (getLast?_ne_newline (not_newline_of_nul hp))]
  cases fuel <;> rfl

end Steps

theorem skip_last {p : Text} (hp : '\n' ∉ p) : (p.dropWhile (· ≠ '\n')).drop 1 = [] := by
  have hdrop : p.dropWhile (· ≠ '\n') = [] := List.dropWhile_eq_nil_iff.2 fun c hc => by
    simpa using fun h : c = '\n' => hp (h ▸ hc)
  rw [hdrop, List.drop_nil]

theorem taken_led {p p' : Text} (h : led p = led p') (ls : List Text) :
    taken (p :: ls) = taken (p' :: ls) := by
  cases ls with
  | nil => rw [taken, taken, h]
  | cons q ls =>
    have hskips : Skips p ↔ Skips p' := by rw [Skips, Skips, h]
    rw [taken, taken, h]
    simp only [hskips]

theorem led_of_head {p : Text} (h : p.head? ≠ some '\x00') : led p = p := by
  rw [led, if_neg fun hp => h hp.1]

theorem heardIn_nil (fuel : ℕ) : heardIn fuel [] = [] := by
  cases fuel <;> rfl

/-- The reader finds the names of the lines it takes : of a line on its own, -/
theorem names_last {fuel : ℕ} {p : Text} (hp : '\n' ∉ p)
    (ih : ∀ bytes : Text, bytes.length < fuel → (heardIn fuel bytes).filterMap nameOfLine =
      (taken (bytes.splitOn '\n')).filterMap nameOfLine) (hlen : p.length < fuel + 1) :
    (heardIn (fuel + 1) p).filterMap nameOfLine = (taken [p]).filterMap nameOfLine := by
  rcases Nat.lt_or_ge p.length lineMax with hshort | hlong
  · rw [taken, led_of_short hshort, if_pos hshort]
    by_cases hne : p = []
    · subst hne
      rfl
    · rw [heardIn_last hp hne hshort]
  · have hpos : 0 < lineMax := by decide
    have hstep := @heardIn_long fuel p [] hp hlong
    have hdrop : '\n' ∉ p.drop lineMax := fun h => hp (List.mem_of_mem_drop h)
    rw [List.append_nil, List.append_nil] at hstep
    rw [hstep]
    split_ifs with hhead
    · have hrest := ih (p.drop lineMax) (by rw [List.length_drop]; omega)
      rw [splitOn_last hdrop] at hrest
      rw [taken_led (led_drop hhead hlong).symm]
      exact hrest
    · rw [skip_last hdrop, heardIn_nil, taken, led_of_head hhead, if_neg (by omega)]

/-- and of one that others follow. -/
theorem names_line {fuel : ℕ} {p rest : Text} (hp : '\n' ∉ p)
    (ih : ∀ bytes : Text, bytes.length < fuel → (heardIn fuel bytes).filterMap nameOfLine =
      (taken (bytes.splitOn '\n')).filterMap nameOfLine)
    (hlen : (p ++ '\n' :: rest).length < fuel + 1) :
    (heardIn (fuel + 1) (p ++ '\n' :: rest)).filterMap nameOfLine =
      (taken (p :: rest.splitOn '\n')).filterMap nameOfLine := by
  simp only [List.length_append, List.length_cons] at hlen
  obtain ⟨q, ls, hsplit⟩ := List.exists_cons_of_ne_nil (List.splitOn_ne_nil '\n' rest)
  have hrest := ih rest (by omega)
  rw [hsplit] at hrest ⊢
  rcases Nat.lt_or_ge p.length lineMax with hshort | hlong
  · rw [taken, led_of_short hshort]
    by_cases hnul : '\x00' ∈ p
    · rw [heardIn_nul hp hshort hnul]
      by_cases hhead : p.head? = some '\x00'
      · rw [if_pos hhead, if_neg (by rw [Skips, led_of_short hshort]; exact fun h => h.2.2 hhead),
          if_neg fun h => h.2 hnul]
        exact hrest
      · -- the next line is skipped
        rw [if_neg hhead, if_pos (by rw [Skips, led_of_short hshort]; exact ⟨hshort, hnul, hhead⟩)]
        obtain ⟨p', hp', heq | ⟨rest', heq⟩⟩ := exists_first_line rest
        · rw [heq, splitOn_last hp'] at hsplit
          rw [heq, skip_last hp', heardIn_nil, ← (List.cons.inj hsplit).2]
          rfl
        · rw [heq, splitOn_line hp'] at hsplit
          rw [heq] at hlen ⊢
          simp only [List.length_append, List.length_cons] at hlen
          rw [skip_line hp', ← (List.cons.inj hsplit).2]
          exact ih rest' (by omega)
    · rw [heardIn_line hp hshort hnul,
        if_neg (by rw [Skips, led_of_short hshort]; exact fun h => hnul h.2.1),
        if_pos ⟨hshort, hnul⟩, List.filterMap_cons, List.filterMap_cons, hrest]
  · rw [heardIn_long hp hlong]
    have hdrop : '\n' ∉ p.drop lineMax := fun h => hp (List.mem_of_mem_drop h)
    have hpos : 0 < lineMax := by decide
    split_ifs with hhead
    · have hnext := ih (p.drop lineMax ++ '\n' :: rest) (by
        simp only [List.length_append, List.length_drop, List.length_cons]
        omega)
      rw [splitOn_line hdrop, hsplit] at hnext
      rw [taken_led (led_drop hhead hlong).symm]
      exact hnext
    · have hled := led_of_head hhead
      rw [skip_line hdrop, taken, if_neg (by rw [Skips, hled]; exact fun h => by omega), hled,
        if_neg fun h => by omega]
      exact hrest

theorem names_heardIn : ∀ {fuel : ℕ} (bytes : Text), bytes.length < fuel →
    (heardIn fuel bytes).filterMap nameOfLine =
      (taken (bytes.splitOn '\n')).filterMap nameOfLine := by
  intro fuel
  induction fuel with
  | zero => intro bytes hlen; omega
  | succ fuel ih =>
    intro bytes hlen
    obtain ⟨p, hp, heq | ⟨rest, heq⟩⟩ := exists_first_line bytes
    · rw [heq] at hlen ⊢
      rw [splitOn_last hp]
      exact names_last hp ih hlen
    · rw [heq] at hlen ⊢
      rw [splitOn_line hp]
      exact names_line hp ih hlen

theorem mem_readList {bytes n : Text} : n ∈ readList bytes ↔
    ∃ line ∈ taken (bytes.splitOn '\n'), nameOfLine line = some n := by
  rw [readList, heard, names_heardIn bytes (Nat.lt_succ_self _), List.mem_filterMap]

/-! ## The names -/

theorem blockListName_of_nameOfLine {line name : Text} (h : nameOfLine line = some name) :
    blockListName name = true := by
  unfold nameOfLine at h
  dsimp only at h
  split_ifs at h
  obtain ⟨word, -, hword⟩ := Option.bind_eq_some_iff.1 h
  split_ifs at hword with hshort hself hname
  rw [← Option.some_inj.1 hword]
  exact hname

theorem not_newline_of_blockLabels : ∀ {name : Text} {label : ℕ}, blockLabels label name = true →
    '\n' ∉ name
  | [], _, _ => by simp
  | c :: name, label, h => by
    rw [List.mem_cons, not_or]
    unfold blockLabels at h
    split_ifs at h with hdot
    · rw [Bool.and_eq_true] at h
      exact ⟨hdot ▸ by decide, not_newline_of_blockLabels h.2⟩
    · rw [Bool.and_eq_true, Bool.and_eq_true] at h
      refine ⟨fun heq => ?_, not_newline_of_blockLabels h.2⟩
      rw [← heq] at h
      exact absurd h.1.1 (by decide)

theorem not_newline_of_blockListName {name : Text} (h : blockListName name = true) :
    '\n' ∉ name := by
  unfold blockListName at h
  rw [Bool.and_eq_true] at h
  exact not_newline_of_blockLabels h.2

namespace Compiled

variable (c : Compiled) (files : Text → Option Text)

theorem mem_listsOf {l : BlockList} (h : l ∈ listsOf c.document c.server) :
    l ∈ c.document.blockLists := by
  obtain ⟨name, -, hname⟩ := List.mem_filterMap.1 h
  exact List.mem_of_find?_eq_some hname

theorem blockListName_of_mem_list {l : BlockList} (h : l ∈ listsOf c.document c.server) :
    (∀ n ∈ l.domain, blockListName n = true) ∧ ∀ n ∈ l.allow, blockListName n = true := by
  have hcheck := c.lists l (c.mem_listsOf h)
  unfold blockListCheck at hcheck
  simp only [Bool.and_eq_true, List.all_eq_true] at hcheck
  exact ⟨hcheck.1.1.1.1.2, hcheck.1.1.1.2⟩

theorem blockListName_of_mem_gathered {n : Text} (h : n ∈ gathered c.document files c.server) :
    blockListName n = true := by
  rcases List.mem_cons.1 h with rfl | h
  · decide
  · obtain ⟨l, hl, h⟩ := List.mem_flatMap.1 h
    rcases List.mem_append.1 h with h | h
    · exact (c.blockListName_of_mem_list hl).1 n h
    · obtain ⟨path, -, h⟩ := List.mem_flatMap.1 h
      cases hfile : files path with
      | none => simp [hfile] at h
      | some bytes =>
        rw [hfile] at h
        obtain ⟨line, -, hline⟩ := List.mem_filterMap.1 h
        exact blockListName_of_nameOfLine hline

theorem blockListName_of_mem_allowed {n : Text} (h : n ∈ allowed c.document c.server) :
    blockListName n = true := by
  obtain ⟨l, hl, h⟩ := List.mem_flatMap.1 h
  exact (c.blockListName_of_mem_list hl).2 n h

end Compiled

/-! ## Sorted, and each once -/

theorem mem_once {n : Text} : ∀ {names : List Text} {last : Option Text},
    n ∈ once last names → n ∈ names
  | x :: names, last, h => by
    unfold once at h
    split_ifs at h
    · exact List.mem_cons_of_mem x (mem_once h)
    · rcases List.mem_cons.1 h with rfl | h
      · exact List.mem_cons_self
      · exact List.mem_cons_of_mem x (mem_once h)

theorem mem_once_of_mem {n : Text} : ∀ {names : List Text} {last : Option Text}, n ∈ names →
    last ≠ some n → n ∈ once last names
  | x :: names, last, h, hlast => by
    unfold once
    by_cases hx : x = n
    · rw [if_neg (hx ▸ hlast), hx]
      exact List.mem_cons_self
    · have hlater : n ∈ names := (List.mem_cons.1 h).resolve_left fun heq => hx heq.symm
      have hrest : n ∈ once (some x) names := mem_once_of_mem hlater (by simpa using hx)
      split_ifs
      · exact hrest
      · exact List.mem_cons_of_mem x hrest

theorem pairwise_once : ∀ {names : List Text} {last : Option Text}, names.Pairwise (· ≤ ·) →
    (∀ x ∈ last, ∀ n ∈ names, x ≤ n) →
    (once last names).Pairwise (· < ·) ∧ ∀ x ∈ last, ∀ n ∈ once last names, x < n
  | [], _, _, _ => by simp [once]
  | y :: names, last, hsorted, hlast => by
    rw [List.pairwise_cons] at hsorted
    have hfirst : ∀ x ∈ some y, ∀ n ∈ names, x ≤ n := fun x hx n hn => by
      rw [← Option.some_inj.1 hx]
      exact hsorted.1 n hn
    have hrest := pairwise_once hsorted.2 hfirst
    have hafter : ∀ n ∈ once (some y) names, y < n := hrest.2 y rfl
    unfold once
    split_ifs with hsame
    · refine ⟨hrest.1, fun x hx n hn => ?_⟩
      rw [hsame] at hx
      rw [← Option.some_inj.1 hx]
      exact hafter n hn
    · refine ⟨List.pairwise_cons.2 ⟨hafter, hrest.1⟩, fun x hx n hn => ?_⟩
      have hxy : x < y := by
        refine lt_of_le_of_ne (hlast x hx y List.mem_cons_self) fun heq => hsame ?_
        rw [← heq]
        exact hx
      rcases List.mem_cons.1 hn with rfl | hn
      · exact hxy
      · exact lt_trans hxy (hafter n hn)

section Blocked

variable {d : Document} {files : Text → Option Text} {s : Server}

/-- The names blocked are in order, each once. -/
theorem blocked_sorted : (blocked d files s).Pairwise (· < ·) := by
  refine List.Pairwise.filter _ (pairwise_once ?_ (by simp)).1
  exact List.pairwise_insertionSort (fun a b : Text => a ≤ b) _

/-- What is blocked is gathered and not allowed. -/
theorem mem_gathered_of_mem_blocked {n : Text} (h : n ∈ blocked d files s) :
    n ∈ gathered d files s ∧ n ∉ allowed d s := by
  obtain ⟨hmem, hallowed⟩ := List.mem_filter.1 h
  have hsorted := mem_once hmem
  rw [List.mem_insertionSort] at hsorted
  exact ⟨List.mem_of_mem_take hsorted, by simpa using hallowed⟩

/-- What is gathered and not allowed is blocked, where there is room. -/
theorem mem_blocked {n : Text} (hroom : (gathered d files s).length < namesMax)
    (h : n ∈ gathered d files s) (hallowed : n ∉ allowed d s) : n ∈ blocked d files s := by
  refine List.mem_filter.2 ⟨mem_once_of_mem ?_ (by simp), by simpa using hallowed⟩
  rw [List.mem_insertionSort, List.take_of_length_le (by omega)]
  exact h

end Blocked

/-! ## The two files -/

/-- The name of an `address=/name/` line. -/
def addressName : Line → Option Text
  | .set key value => if key = "address".toList then some (value.drop 1).dropLast else none
  | _ => none

/-- The names a written file blocks. -/
def blockedIn (text : Text) : List Text := (readLines text).filterMap addressName

/-- A line of the file's own making. -/
def OwnLine : Line → Prop
  | .comment _ => True
  | l => ∃ n, blockListName n = true ∧ (l = addressLine n ∨ l = allowLine n)

namespace Compiled

variable {c : Compiled}

theorem readLines_blockWrite {files : Text → Option Text} {text : Text}
    (h : blockWrite c.document files c.server = some text) :
    readLines text = blockLines c.document files c.server := by
  have hplain {t : Text} (ht : t.all (· != '\n') = true) : Unbroken t := unbroken_of_all rfl ht
  unfold blockWrite at h
  dsimp only at h
  split_ifs at h
  rw [← Option.some_inj.1 h]
  refine readLines_unlines fun l hl => ?_
  unfold blockLines at hl
  simp only [List.mem_append, List.mem_map, List.mem_singleton] at hl
  rcases hl with (((rfl | hl) | ⟨n, hn, rfl⟩) | ⟨n, hn, rfl⟩) | rfl
  · exact hplain rfl
  · split_ifs at hl
    · rw [List.mem_singleton.1 hl]
      exact ((hplain rfl).append (unbroken_intText _)).append (hplain rfl)
    · cases hl
  · have hname := not_newline_of_blockListName
      (c.blockListName_of_mem_gathered files (mem_gathered_of_mem_blocked hn).1)
    exact .set (by decide) (Unbroken.cons (by decide) (Unbroken.append hname (by decide)))
  · have hname := not_newline_of_blockListName (c.blockListName_of_mem_allowed hn)
    exact .set (by decide) (Unbroken.cons (by decide) (Unbroken.append hname (by decide)))
  · exact Unbroken.cons (by decide) ((unbroken_intText _).append (hplain rfl))

end Compiled

section BlockFile

variable {c : Compiled} {files : Text → Option Text} {text : Text}

theorem addressName_blockLines (d : Document) (files : Text → Option Text) (s : Server) :
    (blockLines d files s).filterMap addressName = blocked d files s := by
  have haddress : ∀ names : List Text, (names.map addressLine).filterMap addressName = names := by
    intro names
    rw [List.filterMap_map]
    conv_rhs => rw [← List.filterMap_some (l := names)]
    refine List.filterMap_congr fun n _ => ?_
    simp [addressLine, addressName]
  have hallow : ∀ names : List Text, (names.map allowLine).filterMap addressName = [] := by
    intro names
    rw [List.filterMap_map, List.filterMap_eq_nil_iff]
    intro n _
    rw [Function.comp_apply, allowLine, addressName,
      if_neg (by decide : "server".toList ≠ "address".toList)]
  have hcomment : ∀ t : Text, [Line.comment t].filterMap addressName = [] := fun _ => rfl
  have hfull : ∀ (p : Prop) [Decidable p] (t : Text),
      (if p then [Line.comment t] else []).filterMap addressName = [] := by
    intro p _ t
    split_ifs <;> rfl
  unfold blockLines
  simp only [List.filterMap_append, haddress, hallow, hcomment, hfull, List.nil_append,
    List.append_nil]

/-- The file blocks the names the write has chosen, and no others. -/
theorem blockedIn_eq (h : blockWrite c.document files c.server = some text) :
    blockedIn text = blocked c.document files c.server := by
  rw [blockedIn, Compiled.readLines_blockWrite h, addressName_blockLines]

/-- Every line of a written file is one of its own making. -/
theorem ownLine_of_mem (h : blockWrite c.document files c.server = some text) :
    ∀ l ∈ readLines text, OwnLine l := by
  rw [Compiled.readLines_blockWrite h]
  intro l hl
  unfold blockLines at hl
  simp only [List.mem_append, List.mem_map, List.mem_singleton] at hl
  rcases hl with (((rfl | hl) | ⟨n, hn, rfl⟩) | ⟨n, hn, rfl⟩) | rfl
  · trivial
  · split_ifs at hl
    · rw [List.mem_singleton.1 hl]
      trivial
    · cases hl
  · exact ⟨n, c.blockListName_of_mem_gathered files (mem_gathered_of_mem_blocked hn).1, .inl rfl⟩
  · exact ⟨n, c.blockListName_of_mem_allowed hn, .inr rfl⟩
  · trivial

/-- An allowed name has its line in the file. -/
theorem allowLine_mem {n : Text} (h : blockWrite c.document files c.server = some text)
    (hn : n ∈ allowed c.document c.server) : allowLine n ∈ readLines text := by
  rw [Compiled.readLines_blockWrite h]
  unfold blockLines
  exact List.mem_append_left _ (List.mem_append_right _ (List.mem_map_of_mem hn))

/-- A name of the lists : the canary, a `domain` of one, or that of a line of a usable file which is
taken. -/
def Named (d : Document) (files : Text → Option Text) (s : Server) (n : Text) : Prop :=
  n = canary ∨ ∃ l ∈ listsOf d s, n ∈ l.domain ∨ ∃ path ∈ l.file, ∃ bytes ∈ files path,
    ∃ line ∈ taken (bytes.splitOn '\n'), nameOfLine line = some n

/-- What is gathered is what the lists name. -/
theorem mem_gathered_iff {d : Document} {s : Server} {n : Text} :
    n ∈ gathered d files s ↔ Named d files s n := by
  have hfile : ∀ path, n ∈ ((files path).map readList).getD [] ↔
      ∃ bytes ∈ files path, ∃ line ∈ taken (bytes.splitOn '\n'), nameOfLine line = some n := by
    intro path
    cases files path with
    | none => simp
    | some bytes => simp [mem_readList]
  rw [gathered, Named, List.mem_cons, List.mem_flatMap]
  simp only [List.mem_append, List.mem_flatMap, hfile]

end BlockFile

/-- **Nothing becomes another directive, and no name is lost but to a NUL byte.** For every document
the compiler takes and every bytes of its lists : each line of the block file is a comment or an
`address=` or `server=` line of a name, the blocked names are sorted and each once, an allowed name
has its `server=` line and no `address=` line, and the server's file is read as the directives it
was made of. A name on a short line of a list that is not allowed is blocked as well, exactly where
those on a lost line, one with a NUL byte or skipped after one, are names of the lists all the
same. -/
theorem block_lists_and_server_file (c : Compiled) (paths : Paths) (files : Text → Option Text) :
    ((∀ text, blockWrite c.document files c.server = some text →
        (∀ l ∈ readLines text, OwnLine l) ∧ (blockedIn text).Pairwise (· < ·) ∧
        (∀ n ∈ allowed c.document c.server, n ∉ blockedIn text ∧ allowLine n ∈ readLines text) ∧
        ((gathered c.document files c.server).length < namesMax →
          ∀ l ∈ listsOf c.document c.server, ∀ path ∈ l.file, ∀ bytes ∈ files path,
            ∀ line ∈ bytes.splitOn '\n', line.length < lineMax → ∀ n ∈ nameOfLine line,
              n ∉ allowed c.document c.server → n ∈ blockedIn text)) ∧
      ∀ text, dhcpServerRender c.document files c.interface paths.leases paths.block = some text →
        ∃ r summary, dhcpServerRange c.interface = .ok r ∧
          dhcpServerSummary c.document files c.interface = some summary ∧
          readLines text = headLines c.interface.name summary ++
            directiveLines c.document c.interface r paths.leases paths.block) ↔
    ((blockWrite c.document files c.server).isSome = true →
      (gathered c.document files c.server).length < namesMax →
        ∀ l ∈ listsOf c.document c.server, ∀ path ∈ l.file, ∀ bytes ∈ files path,
          ∀ line ∈ lost (bytes.splitOn '\n'), line.length < lineMax → ∀ n ∈ nameOfLine line,
            n ∉ allowed c.document c.server → Named c.document files c.server n) := by
  constructor
  · rintro ⟨hblock, -⟩ hsome hroom l hl path hpath bytes hbytes line hline hshort n hn hallowed
    obtain ⟨text, htext⟩ := Option.isSome_iff_exists.1 hsome
    have hmem := (hblock text htext).2.2.2 hroom l hl path hpath bytes hbytes line
      (mem_of_mem_lost hline) hshort n hn hallowed
    rw [blockedIn_eq htext] at hmem
    exact mem_gathered_iff.1 (mem_gathered_of_mem_blocked hmem).1
  · intro hlost
    refine ⟨fun text htext => ⟨ownLine_of_mem htext, ?_, fun n hn => ?_, ?_⟩, fun text htext => ?_⟩
    · rw [blockedIn_eq htext]
      exact blocked_sorted
    · refine ⟨?_, allowLine_mem htext hn⟩
      rw [blockedIn_eq htext]
      exact fun hmem => (mem_gathered_of_mem_blocked hmem).2 hn
    · intro hroom l hl path hpath bytes hbytes line hline hshort n hn hallowed
      rw [blockedIn_eq htext]
      refine mem_blocked hroom (mem_gathered_iff.2 ?_) hallowed
      rcases mem_lost_or_taken hshort hline with hline | hline
      · exact hlost (by rw [htext]; rfl) hroom l hl path hpath bytes hbytes line hline hshort n hn
          hallowed
      · exact .inr ⟨l, hl, .inr ⟨path, hpath, bytes, hbytes, line, hline, hn⟩⟩
    · obtain ⟨r, summary, hr, hsummary, -, hread⟩ := Compiled.readLines_render htext
      exact ⟨r, summary, hr, hsummary, hread⟩

/-- A router that forwards DNS on `lan0` and blocks by one list file. -/
def blockingRouter : Compiled where
  document := { blockLists := [{ name := "ads".toList, file := ["/ads".toList] }] }
  interface :=
    { name := "lan0".toList
      addressing := [.static { address := "192.168.1.1/24" }]
      server := { dnsForward := true, block := ["ads".toList] } }
  lists := by decide
  dns := by decide
  name := by simp [Compile.isSpace]

def nulList : Text := "ads.example\x00x\nevil.example\n".toList

/-- The line after one with a NUL byte is skipped, and its name is not blocked. -/
theorem nul_hides_next_line :
    ∃ text, blockWrite blockingRouter.document (fun _ => some nulList) blockingRouter.server =
        some text ∧ "evil.example".toList ∈ nulList.splitOn '\n' ∧
      nameOfLine "evil.example".toList = some "evil.example".toList ∧
      "evil.example".toList ∉ allowed blockingRouter.document blockingRouter.server ∧
      (gathered blockingRouter.document (fun _ => some nulList) blockingRouter.server).length <
        namesMax ∧ "evil.example".toList ∉ blockedIn text := by
  refine ⟨unlines ((blockLines blockingRouter.document (fun _ => some nulList)
    blockingRouter.server).map Line.text), ?_, ?_, ?_, ?_, ?_, ?_⟩
  · decide +kernel
  · decide +kernel
  · decide +kernel
  · decide +kernel
  · decide +kernel
  · decide +kernel

end Netcfgd.DhcpServer
