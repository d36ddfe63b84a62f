import Netcfgd.Resolver

/-!
# What the resolver files say

The rendered files read back by their programs' grammar, against the scopes. Nothing checks the
search domains of a document's list or of a report, nor the routed domains : a blank in one makes
two words of it, a newline another directive, a double quote ends unbound's string. So the files
say what the scopes say exactly where the values are words (`resolver_files_say`), and an interface
by the name of the global scope is not taken for it.
-/

namespace Netcfgd.Resolver

open Netcfgd.Compile (isSpace splitText)

/-! ## Lines and words -/

theorem mem_piece {separates : Char → Bool} {c : Char} : ∀ {text piece : Text},
    piece ∈ text.splitOnP separates → c ∈ piece → separates c = false ∧ c ∈ text := by
  intro text
  induction text with
  | nil => simp
  | cons x text ih =>
    intro piece hpiece hc
    rw [List.splitOnP_cons_eq_if_modifyHead] at hpiece
    cases hx : separates x with
    | true =>
      rw [if_pos hx, List.mem_cons] at hpiece
      rcases hpiece with rfl | hpiece
      · cases hc
      · exact ⟨(ih hpiece hc).1, List.mem_cons_of_mem x (ih hpiece hc).2⟩
    | false =>
      rw [if_neg (by simp [hx])] at hpiece
      cases hsplit : text.splitOnP separates with
      | nil => exact absurd hsplit (List.splitOnP_ne_nil separates text)
      | cons first others =>
        rw [hsplit, List.modifyHead_cons, List.mem_cons] at hpiece
        rw [hsplit] at ih
        rcases hpiece with rfl | hpiece
        · rcases List.mem_cons.1 hc with rfl | hc
          · exact ⟨hx, List.mem_cons_self⟩
          · have hfirst := ih List.mem_cons_self hc
            exact ⟨hfirst.1, List.mem_cons_of_mem x hfirst.2⟩
        · have hother := ih (List.mem_cons_of_mem first hpiece) hc
          exact ⟨hother.1, List.mem_cons_of_mem x hother.2⟩

theorem not_newline_of_mem_splitOn {text line : Text} {c : Char} {sep : Char}
    (h : line ∈ text.splitOn sep) (hc : c ∈ line) : c ≠ sep ∧ c ∈ text := by
  rw [List.splitOn_eq_splitOnP] at h
  obtain ⟨hp, hmem⟩ := mem_piece h hc
  exact ⟨by simpa using hp, hmem⟩

theorem splitOn_unlines : ∀ {lines : List Text}, (∀ l ∈ lines, '\n' ∉ l) →
    (unlines lines).splitOn '\n' = lines ++ [[]]
  | [], _ => rfl
  | l :: lines, h => by
    have hrest : (unlines lines).splitOn '\n' = lines ++ [[]] :=
      splitOn_unlines fun l' hl' => h l' (List.mem_cons_of_mem _ hl')
    have hcons : unlines (l :: lines) = l ++ '\n' :: unlines lines := by simp [unlines]
    rw [hcons, List.splitOn_append_cons_self_of_not_mem (h l List.mem_cons_self), hrest,
      List.cons_append]

theorem directives_unlines (split : Text → List Text) {lines : List Text}
    (h : ∀ l ∈ lines, '\n' ∉ l) :
    directives split (unlines lines) = (lines.filter fun l => !isComment l).map split := by
  unfold directives
  rw [splitOn_unlines h, List.filter_append, List.map_append]
  simp [isComment]

/-- A word between blanks. -/
def Word (w : Text) : Prop := w ≠ [] ∧ ∀ c ∈ w, isBlank c = false ∧ c ≠ '\n'

theorem word_of_mem_directives {text : Text} {ws : List Text} {w : Text}
    (hws : ws ∈ directives words text) (hw : w ∈ ws) : Word w := by
  unfold directives at hws
  obtain ⟨line, hline, rfl⟩ := List.mem_map.1 hws
  obtain ⟨hsplit, hne⟩ := List.mem_filter.1 hw
  refine ⟨by simpa using hne, fun c hc => ?_⟩
  obtain ⟨hblank, hmem⟩ := mem_piece hsplit hc
  exact ⟨hblank, (not_newline_of_mem_splitOn (List.mem_of_mem_filter hline) hmem).1⟩

theorem words_append_blank {c : Char} (hc : isBlank c = true) (a b : Text) :
    words (a ++ c :: b) = words a ++ words b := by
  unfold words splitText
  rw [List.splitOnP_append_cons a b hc, List.filter_append]

theorem words_word {w : Text} (hne : w ≠ []) (h : ∀ c ∈ w, isBlank c = false) : words w = [w] := by
  unfold words splitText
  rw [List.splitOnP_eq_singleton h]
  simp [hne]

theorem words_listLine {keyword : Text} (hne : keyword ≠ [])
    (hkeyword : ∀ c ∈ keyword, isBlank c = false) : ∀ {items : List Text}, (∀ i ∈ items, Word i) →
    words (keyword ++ items.flatMap fun i => ' ' :: i) = keyword :: items := by
  intro items hitems
  induction items using List.reverseRecOn with
  | nil => simp [words_word hne hkeyword]
  | append_singleton items i ih =>
    have hi := hitems i (by simp)
    have hrest := ih fun j hj => hitems j (List.mem_append_left _ hj)
    rw [List.flatMap_append, List.flatMap_singleton, ← List.append_assoc,
      words_append_blank (by decide), hrest, words_word hi.1 fun c hc => (hi.2 c hc).1]
    rfl

/-! ## Addresses -/

theorem mem_ip_text {ip : Ip} {c : Char} (h : c ∈ ip.text) :
    c = ':' ∨ c = '.' ∨ ∃ d < 16, c = Inet.digitChar d := by
  cases ip with
  | v4 octets =>
    rcases Inet.mem_dotted h with h | ⟨d, hd, h⟩
    · exact .inr (.inl h)
    · exact .inr (.inr ⟨d, by omega, h⟩)
  | v6 words => exact Inet.mem_ntop6 h

theorem server_text (s : Server) : Word s.text ∧ '/' ∉ s.text ∧ '"' ∉ s.text := by
  obtain ⟨hslash, hne, -⟩ := Ip.text_shape s.addr
  have hplain : ∀ c ∈ s.text, isBlank c = false ∧ c ≠ '\n' ∧ c ≠ '"' := by
    intro c hc
    rcases mem_ip_text hc with rfl | rfl | ⟨d, hd, rfl⟩
    · decide
    · decide
    · interval_cases d <;> decide
  refine ⟨⟨hne, fun c hc => ⟨(hplain c hc).1, (hplain c hc).2.1⟩⟩, hslash, fun h => ?_⟩
  exact (hplain _ h).2.2 rfl

/-! ## The flat answer -/

section Firsts

variable {α : Type*} [DecidableEq α]

/-- Each element once, where it stands first. -/
def firsts : List α → List α
  | [] => []
  | x :: xs => x :: (firsts xs).filter (· ≠ x)

theorem pushNew_eq : ∀ (more have_ : List α),
    pushNew have_ more = have_ ++ (firsts more).filter (· ∉ have_)
  | [], have_ => by simp [pushNew, firsts]
  | x :: more, have_ => by
    have hnext := pushNew_eq more (if x ∈ have_ then have_ else have_ ++ [x])
    unfold pushNew at hnext ⊢
    rw [List.foldl_cons, hnext, firsts]
    split_ifs with hx
    · rw [List.filter_cons_of_neg (by simpa using hx), List.filter_filter]
      congr 1
      refine List.filter_congr fun y _ => ?_
      by_cases hy : y = x <;> simp [hy, hx]
    · rw [List.filter_cons_of_pos (by simpa using hx), List.filter_filter, List.append_assoc,
        List.singleton_append]
      congr 2
      refine List.filter_congr fun y _ => ?_
      simp [Bool.and_comm]

/-- What a list says for the first time after another, each value once. -/
def anew (said more : List α) : List α := (firsts more).filter (· ∉ said)

theorem mem_firsts {x : α} : ∀ {l : List α}, x ∈ firsts l ↔ x ∈ l
  | [] => by simp [firsts]
  | y :: l => by
    rw [firsts, List.mem_cons, List.mem_filter, mem_firsts, List.mem_cons]
    by_cases hx : x = y <;> simp [hx]

theorem nodup_firsts : ∀ l : List α, (firsts l).Nodup
  | [] => List.nodup_nil
  | x :: l => by
    rw [firsts, List.nodup_cons]
    exact ⟨fun h => by simpa using List.of_mem_filter h, (nodup_firsts l).filter _⟩

theorem firsts_append : ∀ a b : List α, firsts (a ++ b) = firsts a ++ anew a b
  | [], b => by simp [firsts, anew]
  | x :: a, b => by
    rw [List.cons_append, firsts, firsts_append a, firsts, List.filter_append, List.cons_append,
      anew,
      anew, List.filter_filter]
    congr 2
    refine List.filter_congr fun y _ => ?_
    simp

theorem anew_append (said a b : List α) :
    anew said (a ++ b) = anew said a ++ (anew said b).filter (· ∉ a) := by
  rw [anew, firsts_append, List.filter_append, anew, anew, anew, List.filter_filter,
    List.filter_filter]
  simp only [Bool.and_comm]

/-- Two lists without repeats come to the same either way round where one is a beginning of the
other. -/
theorem append_new_comm {a b : List α} (ha : a.Nodup) (hb : b.Nodup) :
    a ++ b.filter (· ∉ a) = b ++ a.filter (· ∉ b) ↔ a <+: b ∨ b <+: a := by
  have hpre :
      ∀ {a b : List α}, b.Nodup → a <+: b → a ++ b.filter (· ∉ a) = b ++ a.filter (· ∉ b) := by
    rintro a _ hb ⟨rest, rfl⟩
    rw [List.nodup_append] at hb
    rw [List.filter_append, List.filter_eq_nil_iff.2 (by simp), List.nil_append,
      List.filter_eq_self.2 fun x hx => by simpa using fun hxa => hb.2.2 x hxa x hx rfl,
      List.filter_eq_nil_iff.2 fun x hx => by simp [hx], List.append_nil]
  constructor
  · intro h
    exact List.prefix_or_prefix_of_prefix (List.prefix_append a _) (h ▸ List.prefix_append b _)
  · rintro (h | h)
    · exact hpre hb h
    · exact (hpre ha h).symm

/-- Two lists in turn, behind another : they may change places where what the one says anew begins
what the other does. -/
theorem firsts_swap (said a b : List α) :
    firsts (said ++ (a ++ b)) = firsts (said ++ (b ++ a)) ↔
      anew said a <+: anew said b ∨ anew said b <+: anew said a := by
  have hfilter : ∀ a b : List α, (anew said b).filter (· ∉ a) =
      (anew said b).filter (· ∉ anew said a) := by
    intro a b
    refine List.filter_congr fun x hx => ?_
    obtain ⟨-, hnot⟩ := List.mem_filter.1 hx
    have hnot : x ∉ said := by simpa using hnot
    simp [anew, mem_firsts, hnot]
  rw [firsts_append, firsts_append, List.append_cancel_left_eq, anew_append, anew_append,
    hfilter a b, hfilter b a]
  exact append_new_comm ((nodup_firsts a).filter _) ((nodup_firsts b).filter _)

theorem pushNew_pushNew (a b have_ : List α) :
    pushNew (pushNew have_ a) b = pushNew have_ (a ++ b) := by
  unfold pushNew
  rw [List.foldl_append]

theorem foldl_absorb : ∀ (scopes : List Scope) (flat : Flat),
    scopes.foldl absorb flat =
      ⟨pushNew flat.servers (scopes.flatMap fun s => s.policy.servers),
        pushNew flat.search (scopes.flatMap fun s => s.policy.search),
        pushNew flat.options (scopes.flatMap fun s => s.policy.options)⟩
  | [], flat => rfl
  | s :: scopes, flat => by
    rw [List.foldl_cons, foldl_absorb scopes]
    simp only [absorb, pushNew_pushNew, List.flatMap_cons]

end Firsts

/-- The scopes flattened, by what comes first. -/
def flatOf (scopes : List Scope) : Flat where
  servers := firsts (scopes.flatMap fun s => s.policy.servers)
  search := firsts (scopes.flatMap fun s => s.policy.search)
  options := firsts (scopes.flatMap fun s => s.policy.options)

def byName (scopes : List Scope) : List Scope :=
  (scopes.filter fun s => s.name ≠ globalScope) ++ scopes.filter fun s => s.name = globalScope

theorem flatten_eq (scopes : List Scope) : flatten scopes = flatOf (byName scopes) := by
  unfold flatten byName
  rw [foldl_absorb, foldl_absorb]
  simp only [pushNew_pushNew, ← List.flatMap_append]
  unfold flatOf
  simp only [pushNew_eq, List.nil_append, List.not_mem_nil, not_false_eq_true, decide_true,
    List.filter_true]

/-! ## `resolv.conf` -/

/-- What a flat policy has a resolver told. -/
def Flat.told (flat : Flat) : Resolved where
  servers := (flat.servers.take maxServers).map Server.text
  search := flat.search
  options := flat.options
  other := []

theorem isComment_cons {c : Char} (hc : isBlank c = false) (l : Text) :
    isComment (c :: l) = decide (c = '#') := by
  unfold isComment
  rw [List.dropWhile_cons_of_neg (by simp [hc])]
  simp

theorem plain_of_all {x : Text} (h : (x.all fun c => !isBlank c && c != '\n') = true) :
    ∀ c ∈ x, isBlank c = false ∧ c ≠ '\n' := by
  intro c hc
  simpa using List.all_eq_true.1 h c hc

theorem listLine_directives {keyword : String} {k : Char} {rest : Text}
    (hkeyword : keyword.toList = k :: rest) (hk : k ≠ '#')
    (hplain : ∀ c ∈ keyword.toList, isBlank c = false ∧ c ≠ '\n') {items : List Text}
    (hitems : ∀ i ∈ items, Word i) :
    (∀ l ∈ listLine keyword items, '\n' ∉ l) ∧
      ((listLine keyword items).filter fun l => !isComment l).map words =
        if items = [] then [] else [keyword.toList :: items] := by
  unfold listLine
  split_ifs with hnone
  · simp
  · have hcomment : isComment (keyword.toList ++ items.flatMap fun i => ' ' :: i) = false := by
      rw [hkeyword, List.cons_append, isComment_cons (hplain k (by rw [hkeyword]; simp)).1]
      simpa using hk
    constructor
    · intro l hl hnewline
      rw [List.mem_singleton] at hl
      subst hl
      rcases List.mem_append.1 hnewline with h | h
      · exact (hplain _ h).2 rfl
      · obtain ⟨i, hi, h⟩ := List.mem_flatMap.1 h
        rcases List.mem_cons.1 h with h | h
        · exact absurd h (by decide)
        · exact ((hitems i hi).2 _ h).2 rfl
    · rw [List.filter_cons_of_pos (by simp [hcomment]), List.filter_nil, List.map_singleton,
        words_listLine (by rw [hkeyword]; simp) (fun c hc => (hplain c hc).1) hitems]

theorem search_directives {items : List Text} (hitems : ∀ i ∈ items, Word i) :
    (∀ l ∈ listLine "search" items, '\n' ∉ l) ∧
      ((listLine "search" items).filter fun l => !isComment l).map words =
        if items = [] then [] else ["search".toList :: items] :=
  listLine_directives (show "search".toList = 's' :: "earch".toList from rfl) (by decide)
    (plain_of_all rfl) hitems

theorem options_directives {items : List Text} (hitems : ∀ i ∈ items, Word i) :
    (∀ l ∈ listLine "options" items, '\n' ∉ l) ∧
      ((listLine "options" items).filter fun l => !isComment l).map words =
        if items = [] then [] else ["options".toList :: items] :=
  listLine_directives (show "options".toList = 'o' :: "ptions".toList from rfl) (by decide)
    (plain_of_all rfl) hitems

theorem server_line (keyword : Text) {k : Char} {rest : Text} (hkeyword : keyword = k :: rest)
    (hk : k ≠ '#') (hplain : ∀ c ∈ keyword, isBlank c = false ∧ c ≠ '\n') (s : Server) :
    '\n' ∉ keyword ++ ' ' :: s.text ∧ isComment (keyword ++ ' ' :: s.text) = false ∧
      words (keyword ++ ' ' :: s.text) = [keyword, s.text] := by
  obtain ⟨⟨hne, htext⟩, -⟩ := server_text s
  refine ⟨fun h => ?_, ?_, ?_⟩
  · rcases List.mem_append.1 h with h | h
    · exact (hplain _ h).2 rfl
    · rcases List.mem_cons.1 h with h | h
      · exact absurd h (by decide)
      · exact (htext _ h).2 rfl
  · rw [hkeyword, List.cons_append, isComment_cons (hplain k (by rw [hkeyword]; simp)).1]
    simpa using hk
  · rw [words_append_blank (by decide), words_word (by rw [hkeyword]; simp)
      (fun c hc => (hplain c hc).1), words_word hne fun c hc => (htext c hc).1]
    rfl

theorem mem_decimal {n : ℕ} {c : Char} (h : c ∈ decimal n) : c ≠ '\n' := by
  obtain ⟨d, hd, rfl⟩ := List.mem_map.1 h
  have hlt : d < 10 := Nat.digits_lt_base (by norm_num) (List.mem_reverse.1 hd)
  interval_cases d <;> decide

theorem generated_comment : '\n' ∉ generated ∧ isComment generated = true := by decide

theorem omittedLines_comment {servers : List Server} {l : Text} (h : l ∈ omittedLines servers) :
    '\n' ∉ l ∧ isComment l = true := by
  unfold omittedLines at h
  split_ifs at h
  · rcases List.mem_cons.1 h with rfl | h
    · refine ⟨fun hnewline => ?_, rfl⟩
      rw [List.mem_append, List.mem_append] at hnewline
      rcases hnewline with (h | h) | h
      · exact absurd h (by decide)
      · exact mem_decimal h rfl
      · exact absurd h (by decide)
    · obtain ⟨s, -, rfl⟩ := List.mem_map.1 h
      refine ⟨fun hnewline => ?_, rfl⟩
      rcases List.mem_append.1 hnewline with h | h
      · exact absurd h (by decide)
      · exact ((server_text s).1.2 _ h).2 rfl
  · cases h

theorem filter_comments (lines : List Text) (h : ∀ l ∈ lines, isComment l = true) :
    lines.filter (fun l => !isComment l) = [] := by
  rw [List.filter_eq_nil_iff]
  intro l hl
  simp [h l hl]

theorem directives_resolvLines {flat : Flat} (hsearch : ∀ x ∈ flat.search, Word x)
    (hoptions : ∀ x ∈ flat.options, Word x) :
    directives words (unlines (resolvLines flat)) =
      (if flat.search = [] then [] else ["search".toList :: flat.search]) ++
        (flat.servers.take maxServers).map (fun s => ["nameserver".toList, s.text]) ++
        if flat.options = [] then [] else ["options".toList :: flat.options] := by
  have hserver : ∀ s : Server, _ := server_line "nameserver".toList
    (show _ = 'n' :: "ameserver".toList from rfl) (by decide) (plain_of_all rfl)
  have hservers : ((flat.servers.take maxServers).map
      (fun s => "nameserver ".toList ++ s.text)).filter (fun l => !isComment l) =
      (flat.servers.take maxServers).map fun s => "nameserver ".toList ++ s.text := by
    rw [List.filter_eq_self]
    intro l hl
    obtain ⟨s, -, rfl⟩ := List.mem_map.1 hl
    simpa using (hserver s).2.1
  rw [directives_unlines words]
  · unfold resolvLines
    rw [List.filter_append, List.filter_append, List.filter_append, List.filter_append,
      filter_comments [generated] (by simp [generated_comment.2]),
      filter_comments (omittedLines flat.servers) fun l hl => (omittedLines_comment hl).2,
      hservers, List.nil_append, List.append_nil, List.map_append, List.map_append,
      (search_directives hsearch).2, (options_directives hoptions).2, List.map_map]
    congr 2
    exact List.map_congr_left fun s _ => (hserver s).2.2
  · intro l hl
    unfold resolvLines at hl
    simp only [List.mem_append] at hl
    rcases hl with (((hl | hl) | hl) | hl) | hl
    · rw [List.mem_singleton.1 hl]
      exact generated_comment.1
    · exact (search_directives hsearch).1 l hl
    · obtain ⟨s, -, rfl⟩ := List.mem_map.1 hl
      exact (hserver s).1
    · exact (omittedLines_comment hl).1
    · exact (options_directives hoptions).1 l hl

theorem argumentsOf_line (keyword : String) (k : Text) (items : List Text) :
    argumentsOf keyword (if items = [] then [] else [k :: items]) =
      if k = keyword.toList then items else [] := by
  unfold argumentsOf
  split_ifs with hnone hk hk
  · rw [hnone]
    rfl
  · rfl
  · simp [hk]
  · simp [hk]

theorem argumentsOf_servers (keyword : String) (k : Text) (servers : List Server) :
    argumentsOf keyword (servers.map fun s => [k, s.text]) =
      if k = keyword.toList then servers.map Server.text else [] := by
  unfold argumentsOf
  rw [List.flatMap_map]
  split_ifs with hk
  · simp only [List.head?_cons, hk, if_true, List.drop_succ_cons, List.drop_zero]
    exact List.map_eq_flatMap.symm
  · simp [hk]

theorem argumentsOf_append (keyword : String) (a b : List (List Text)) :
    argumentsOf keyword (a ++ b) = argumentsOf keyword a ++ argumentsOf keyword b :=
  List.flatMap_append

theorem resolvRead_resolvLines {flat : Flat} (hsearch : ∀ x ∈ flat.search, Word x)
    (hoptions : ∀ x ∈ flat.options, Word x) :
    resolvRead (unlines (resolvLines flat)) = flat.told := by
  have hother : ∀ ws ∈ directives words (unlines (resolvLines flat)),
      ws.head? = some "nameserver".toList ∨ ws.head? = some "search".toList ∨
        ws.head? = some "options".toList := by
    rw [directives_resolvLines hsearch hoptions]
    intro ws hws
    rcases List.mem_append.1 hws with hws | hws
    · rcases List.mem_append.1 hws with hws | hws
      · split_ifs at hws
        · cases hws
        · rw [List.mem_singleton.1 hws]
          exact .inr (.inl rfl)
      · obtain ⟨s, -, rfl⟩ := List.mem_map.1 hws
        exact .inl rfl
    · split_ifs at hws
      · cases hws
      · rw [List.mem_singleton.1 hws]
        exact .inr (.inr rfl)
  have hapart : "search".toList ≠ "nameserver".toList ∧ "options".toList ≠ "nameserver".toList ∧
      "search".toList ≠ "options".toList := by decide
  unfold resolvRead Flat.told
  rw [Resolved.mk.injEq]
  refine ⟨?_, ?_, ?_, ?_⟩
  · rw [directives_resolvLines hsearch hoptions, argumentsOf_append, argumentsOf_append,
      argumentsOf_line, argumentsOf_line, argumentsOf_servers, if_neg hapart.1, if_pos rfl,
      if_neg hapart.2.1, List.nil_append, List.append_nil]
  · rw [directives_resolvLines hsearch hoptions, argumentsOf_append, argumentsOf_append,
      argumentsOf_line, argumentsOf_line, argumentsOf_servers, if_pos rfl, if_neg hapart.1.symm,
      if_neg hapart.2.2.symm, List.append_nil, List.append_nil]
  · rw [directives_resolvLines hsearch hoptions, argumentsOf_append, argumentsOf_append,
      argumentsOf_line, argumentsOf_line, argumentsOf_servers, if_neg hapart.2.2,
      if_neg hapart.2.1.symm, if_pos rfl, List.nil_append, List.nil_append]
  · rw [List.filter_eq_nil_iff]
    intro ws hws
    have := hother ws hws
    simp only [decide_eq_true_eq]
    tauto

theorem word_of_resolvRead {text : Text} {x : Text}
    (h : x ∈ (resolvRead text).search ∨ x ∈ (resolvRead text).options) : Word x := by
  have hargs : ∀ keyword, x ∈ argumentsOf keyword (directives words text) → Word x := by
    intro keyword hx
    obtain ⟨ws, hws, hx⟩ := List.mem_flatMap.1 hx
    split_ifs at hx
    · exact word_of_mem_directives hws (List.mem_of_mem_drop hx)
    · cases hx
  exact h.elim (hargs "search") (hargs "options")

/-- `resolv.conf` reads back exactly where search and options are words. -/
theorem resolvRead_eq_iff {flat : Flat} : resolvRead (unlines (resolvLines flat)) = flat.told ↔
    (∀ x ∈ flat.search, Word x) ∧ ∀ x ∈ flat.options, Word x := by
  refine ⟨fun hread => ⟨fun x hx => ?_, fun x hx => ?_⟩, fun h => resolvRead_resolvLines h.1 h.2⟩
  · exact word_of_resolvRead (.inl (by rw [hread]; exact hx))
  · exact word_of_resolvRead (.inr (by rw [hread]; exact hx))

/-! ## Lines and what is read of them -/

section Reads

variable {β : Type*} {read : Text → β}

/-- Lines stay lines, and a program reads these directives of them. -/
def Reads (read : Text → β) (lines : List Text) (out : List β) : Prop :=
  (∀ l ∈ lines, '\n' ∉ l) ∧ (lines.filter fun l => !isComment l).map read = out

theorem reads_line {line : Text} {one : β}
    (h : ('\n' ∉ line ∧ isComment line = false) ∧ read line = one) : Reads read [line] [one] := by
  obtain ⟨⟨hline, hcomment⟩, hread⟩ := h
  refine ⟨by simpa using hline, ?_⟩
  simp [hcomment, hread]

theorem reads_comments {lines : List Text} (h : ∀ l ∈ lines, '\n' ∉ l ∧ isComment l = true) :
    Reads read lines [] :=
  ⟨fun l hl => (h l hl).1, by rw [filter_comments lines fun l hl => (h l hl).2, List.map_nil]⟩

theorem reads_append {a b : List Text} {x y : List β} (ha : Reads read a x) (hb : Reads read b y) :
    Reads read (a ++ b) (x ++ y) := by
  refine ⟨fun l hl => ?_, by rw [List.filter_append, List.map_append, ha.2, hb.2]⟩
  rcases List.mem_append.1 hl with hl | hl
  · exact ha.1 l hl
  · exact hb.1 l hl

theorem reads_flatMap {γ : Type*} {lines : γ → List Text} {out : γ → List β} : ∀ {cs : List γ},
    (∀ c ∈ cs, Reads read (lines c) (out c)) → Reads read (cs.flatMap lines) (cs.flatMap out)
  | [], _ => ⟨by simp, rfl⟩
  | c :: cs, h => reads_append (h c List.mem_cons_self)
      (reads_flatMap fun c' hc' => h c' (List.mem_cons_of_mem _ hc'))

theorem reads_scope_name {s : Scope} (h : '\n' ∉ s.name) :
    Reads read [[], "# scope: ".toList ++ s.name] [] := by
  refine reads_comments fun l hl => ?_
  rcases List.mem_cons.1 hl with rfl | hl
  · exact ⟨by simp, rfl⟩
  · rw [List.mem_singleton.1 hl]
    refine ⟨fun hnewline => ?_, rfl⟩
    rcases List.mem_append.1 hnewline with hnewline | hnewline
    · exact absurd hnewline (by decide)
    · exact h hnewline

end Reads

/-! ## dnsmasq -/

def Unbroken (x : Text) : Prop := ∀ c ∈ x, isBlank c = false ∧ c ≠ '\n'

/-- What dnsmasq is to read of a scope, its routing domains written so. -/
def masqWritten (written : Text → Text) (s : Scope) : List Masq :=
  (s.policy.servers.flatMap fun server =>
    if s.policy.domains = [] then [Masq.server [] server.text]
    else s.policy.domains.flatMap fun d =>
      Masq.server [written d.suffix] server.text ::
        if d.exclusive then [] else [.server [] server.text]) ++
  s.policy.search.map Masq.domain

/-- The search domains of a scope do not break, and its routed ones neither, hold no slash and fit
dnsmasq's line as netcfgd writes it. -/
def MasqPlain (s : Scope) : Prop :=
  (∀ x ∈ s.policy.search, Unbroken x) ∧
    (s.policy.servers ≠ [] → ∀ d ∈ s.policy.domains,
      (Unbroken (bare d.suffix) ∧ '/' ∉ bare d.suffix) ∧ (bare d.suffix).length ≤ bareMax)

theorem masq_line {k : Char} {rest : Text} (hk : isBlank k = false ∧ k ≠ '#' ∧ k ≠ '\n')
    (hrest : Unbroken rest) :
    '\n' ∉ k :: rest ∧ isComment (k :: rest) = false ∧ words (k :: rest) = [k :: rest] := by
  refine ⟨fun h => ?_, ?_, ?_⟩
  · rcases List.mem_cons.1 h with h | h
    · exact hk.2.2 h.symm
    · exact (hrest _ h).2 rfl
  · rw [isComment_cons hk.1]
    simpa using hk.2.1
  · refine words_word (by simp) fun c hc => ?_
    rcases List.mem_cons.1 hc with rfl | hc
    · exact hk.1
    · exact (hrest c hc).1

theorem unbroken_append {a b : Text} (ha : Unbroken a) (hb : Unbroken b) : Unbroken (a ++ b) := by
  intro c hc
  rcases List.mem_append.1 hc with hc | hc
  · exact ha c hc
  · exact hb c hc

theorem masq_server_line (s : Server) :
    ('\n' ∉ "server=".toList ++ s.text ∧ isComment ("server=".toList ++ s.text) = false) ∧
      masqLine (words ("server=".toList ++ s.text)) = .server [] s.text := by
  obtain ⟨⟨hne, htext⟩, hslash, -⟩ := server_text s
  have hrest : Unbroken ("erver=".toList ++ s.text) :=
    unbroken_append (plain_of_all rfl) htext
  obtain ⟨hline, hcomment, hwords⟩ := masq_line (k := 's') (by decide) hrest
  refine ⟨⟨hline, hcomment⟩, ?_⟩
  rw [show "server=".toList ++ s.text = 's' :: ("erver=".toList ++ s.text) from rfl, hwords]
  change masqServer s.text = _
  cases htext' : s.text with
  | nil => exact absurd htext' hne
  | cons c rest =>
    have hc : c ≠ '/' := by
      rintro rfl
      exact hslash (by rw [htext']; exact List.mem_cons_self)
    unfold masqServer
    split
    · next h =>
      cases h
      exact absurd rfl hc
    · rfl

theorem masq_route_line (s : Server) {domain : Text} (hdomain : Unbroken domain)
    (hslash : '/' ∉ domain) :
    ('\n' ∉ "server=/".toList ++ domain ++ '/' :: s.text ∧
      isComment ("server=/".toList ++ domain ++ '/' :: s.text) = false) ∧
      masqLine (words ("server=/".toList ++ domain ++ '/' :: s.text)) =
        .server [domain] s.text := by
  obtain ⟨⟨hne, htext⟩, hnone, -⟩ := server_text s
  have hrest : Unbroken ("erver=/".toList ++ domain ++ '/' :: s.text) := by
    refine unbroken_append (unbroken_append (plain_of_all rfl) hdomain) ?_
    exact unbroken_append (a := ['/']) (plain_of_all rfl) htext
  obtain ⟨hline, hcomment, hwords⟩ := masq_line (k := 's') (by decide) hrest
  refine ⟨⟨hline, hcomment⟩, ?_⟩
  rw [show "server=/".toList ++ domain ++ '/' :: s.text =
    's' :: ("erver=/".toList ++ domain ++ '/' :: s.text) from rfl, hwords]
  have hsplit : (domain ++ '/' :: s.text).splitOn '/' = [domain, s.text] := by
    rw [List.splitOn_append_cons_self_of_not_mem hslash, List.splitOn_eq_singleton hnone]
  change Masq.server ((domain ++ '/' :: s.text).splitOn '/').dropLast
    (((domain ++ '/' :: s.text).splitOn '/').getLast?.getD []) = _
  rw [hsplit]
  rfl

theorem masq_domain_line {x : Text} (hx : Unbroken x) :
    ('\n' ∉ "domain=".toList ++ x ∧ isComment ("domain=".toList ++ x) = false) ∧
      masqLine (words ("domain=".toList ++ x)) = .domain x := by
  have hrest : Unbroken ("omain=".toList ++ x) :=
    unbroken_append (plain_of_all rfl) hx
  obtain ⟨hline, hcomment, hwords⟩ := masq_line (k := 'd') (by decide) hrest
  refine ⟨⟨hline, hcomment⟩, ?_⟩
  rw [show "domain=".toList ++ x = 'd' :: ("omain=".toList ++ x) from rfl, hwords]
  rfl

theorem reads_masqLines {s : Scope} (hname : '\n' ∉ s.name)
    (hsearch : ∀ x ∈ s.policy.search, Unbroken x)
    (hdomains : s.policy.servers ≠ [] → ∀ d ∈ s.policy.domains,
      Unbroken (withoutTrailingDot d.suffix) ∧ '/' ∉ withoutTrailingDot d.suffix) :
    Reads (fun l => masqLine (words l)) (masqLines s) (masqWritten withoutTrailingDot s) := by
  have hservers : Reads (fun l => masqLine (words l))
      (s.policy.servers.flatMap fun server =>
        if s.policy.domains = [] then ["server=".toList ++ server.text]
        else s.policy.domains.flatMap fun d =>
          ("server=/".toList ++ withoutTrailingDot d.suffix ++ '/' :: server.text) ::
            if d.exclusive then [] else ["server=".toList ++ server.text])
      (s.policy.servers.flatMap fun server =>
        if s.policy.domains = [] then [.server [] server.text]
        else s.policy.domains.flatMap fun d =>
          .server [withoutTrailingDot d.suffix] server.text ::
            if d.exclusive then [] else [.server [] server.text]) := by
    refine reads_flatMap fun server hserver => ?_
    split_ifs
    · exact reads_line (masq_server_line server)
    · refine reads_flatMap fun d hd => ?_
      obtain ⟨hunbroken, hslash⟩ := hdomains (List.ne_nil_of_mem hserver) d hd
      have hopen : Reads (fun l => masqLine (words l))
          (if d.exclusive then [] else ["server=".toList ++ server.text])
          (if d.exclusive then [] else [.server [] server.text]) := by
        split_ifs
        · exact ⟨by simp, rfl⟩
        · exact reads_line (masq_server_line server)
      exact reads_append (reads_line (masq_route_line server hunbroken hslash)) hopen
  have hsearches : Reads (fun l => masqLine (words l))
      (s.policy.search.map fun x => "domain=".toList ++ x) (s.policy.search.map .domain) := by
    rw [List.map_eq_flatMap, List.map_eq_flatMap]
    exact reads_flatMap fun x hx => reads_line (masq_domain_line (hsearch x hx))
  exact reads_append (reads_append (reads_scope_name hname) hservers) hsearches

theorem unbroken_of_masqRead {text : Text} {m : Masq} (h : m ∈ masqRead text) :
    (∀ x, m = .domain x → Unbroken x) ∧
      ∀ ds a, m = .server ds a → ∀ d ∈ ds, Unbroken d ∧ '/' ∉ d := by
  obtain ⟨ws, hws, rfl⟩ := List.mem_map.1 h
  have hword : ∀ w ∈ ws, Word w := fun w hw => word_of_mem_directives hws hw
  unfold masqLine
  split
  · next word =>
    have hunbroken : Unbroken ((word.dropWhile (· ≠ '=')).drop 1) := fun c hc =>
      (hword word (by simp)).2 c ((List.dropWhile_suffix _).subset (List.mem_of_mem_drop hc))
    split_ifs
    · unfold masqServer
      split
      · next rest hrest =>
        refine ⟨by simp, fun ds a hsame d hd => ?_⟩
        cases hsame
        have hpiece : d ∈ rest.splitOn '/' := List.mem_of_mem_dropLast hd
        refine ⟨fun c hc => hunbroken c ?_, fun hslash => ?_⟩
        · rw [hrest]
          exact List.mem_cons_of_mem _ (not_newline_of_mem_splitOn hpiece hc).2
        · exact (not_newline_of_mem_splitOn hpiece hslash).1 rfl
      · refine ⟨by simp, fun ds a hsame d hd => ?_⟩
        cases hsame
        cases hd
    · refine ⟨fun x hsame => ?_, by simp⟩
      cases hsame
      exact hunbroken
    · exact ⟨by simp, by simp⟩
  · exact ⟨by simp, by simp⟩

theorem mem_masqWritten {written : Text → Text} {s : Scope} {b a : Text} :
    .server [b] a ∈ masqWritten written s ↔ ∃ server ∈ s.policy.servers, ∃ d ∈ s.policy.domains,
      b = written d.suffix ∧ a = server.text := by
  unfold masqWritten
  rw [List.mem_append, or_iff_left (by simp), List.mem_flatMap]
  refine exists_congr fun server => and_congr_right fun _ => ?_
  split_ifs with hnone
  · simp [hnone]
  · rw [List.mem_flatMap]
    refine exists_congr fun d => and_congr_right fun _ => ?_
    cases d.exclusive <;> simp

/-- dnsmasq's file reads back exactly where the scopes are plain. -/
theorem masqRead_iff {scopes : List Scope} (hnames : ∀ s ∈ scopes, '\n' ∉ s.name) :
    masqRead (unlines (generated :: scopes.flatMap masqLines)) =
      scopes.flatMap (masqWritten bare) ↔ ∀ s ∈ scopes, MasqPlain s := by
  have hwritten : (∀ s ∈ scopes, (∀ x ∈ s.policy.search, Unbroken x) ∧
      (s.policy.servers ≠ [] → ∀ d ∈ s.policy.domains,
        Unbroken (bare d.suffix) ∧ '/' ∉ bare d.suffix)) →
      masqRead (unlines (generated :: scopes.flatMap masqLines)) =
        scopes.flatMap (masqWritten withoutTrailingDot) := by
    intro hplain
    have hscopes : Reads (fun l => masqLine (words l)) (generated :: scopes.flatMap masqLines)
        ([] ++ scopes.flatMap (masqWritten withoutTrailingDot)) := by
      refine reads_append (a := [generated]) (reads_comments (by simp [generated_comment])) ?_
      refine reads_flatMap fun s hs => reads_masqLines (hnames s hs) (hplain s hs).1 ?_
      intro hsome d hd
      obtain ⟨hunbroken, hslash⟩ := (hplain s hs).2 hsome d hd
      exact ⟨fun c hc => hunbroken c (List.mem_of_mem_take hc),
        fun h => hslash (List.mem_of_mem_take h)⟩
    unfold masqRead
    rw [directives_unlines words hscopes.1, List.map_map]
    exact hscopes.2
  constructor
  · intro hread
    have hmem : ∀ s ∈ scopes, ∀ m ∈ masqWritten bare s,
        m ∈ masqRead (unlines (generated :: scopes.flatMap masqLines)) := fun s hs m hm => by
      rw [hread]
      exact List.mem_flatMap.2 ⟨s, hs, hm⟩
    have hplain : ∀ s ∈ scopes, (∀ x ∈ s.policy.search, Unbroken x) ∧
        (s.policy.servers ≠ [] → ∀ d ∈ s.policy.domains,
          Unbroken (bare d.suffix) ∧ '/' ∉ bare d.suffix) := by
      intro s hs
      refine ⟨fun x hx => ?_, fun hsome d hd => ?_⟩
      · exact (unbroken_of_masqRead (hmem s hs (.domain x)
          (List.mem_append_right _ (List.mem_map_of_mem hx)))).1 x rfl
      · obtain ⟨server, hserver⟩ := List.exists_mem_of_ne_nil _ hsome
        exact (unbroken_of_masqRead (hmem s hs _ (mem_masqWritten.2
          ⟨server, hserver, d, hd, rfl, rfl⟩))).2 _ _ rfl _ (List.mem_singleton.2 rfl)
    intro s hs
    refine ⟨(hplain s hs).1, fun hsome d hd => ⟨(hplain s hs).2 hsome d hd, ?_⟩⟩
    obtain ⟨server, hserver⟩ := List.exists_mem_of_ne_nil _ hsome
    have hthere := hmem s hs _ (mem_masqWritten.2 ⟨server, hserver, d, hd, rfl, rfl⟩)
    rw [hwritten hplain] at hthere
    obtain ⟨s', -, hs'⟩ := List.mem_flatMap.1 hthere
    obtain ⟨-, -, d', -, hcut, -⟩ := mem_masqWritten.1 hs'
    rw [hcut, withoutTrailingDot]
    exact List.length_take_le _ _
  · intro hplain
    rw [hwritten fun s hs => ⟨(hplain s hs).1, fun hsome d hd => ((hplain s hs).2 hsome d hd).1⟩]
    refine List.flatMap_congr fun s hs => ?_
    unfold masqWritten
    congr 1
    refine List.flatMap_congr fun server hserver => ?_
    have hfits : ∀ d ∈ s.policy.domains, withoutTrailingDot d.suffix = bare d.suffix := fun d hd =>
      List.take_of_length_le ((hplain s hs).2 (List.ne_nil_of_mem hserver) d hd).2
    split_ifs
    · rfl
    · exact List.flatMap_congr fun d hd => by rw [hfits d hd]

/-! ## unbound -/

def Token.got : Token → Text
  | .none => []
  | .word got => got
  | .quoted got => got

theorem mem_tokens {word : Text} {c : Char} : ∀ {line : Text} {state : Token}, '"' ∉ state.got →
    word ∈ tokens state line → c ∈ word → c ≠ '"' ∧ (c ∈ state.got ∨ c ∈ line)
  | [], .none, _, h, _ => by cases h
  | [], .word got, hgot, h, hc => by
    rw [tokens, List.mem_singleton] at h
    subst h
    exact ⟨fun hquote => hgot (hquote ▸ hc), .inl hc⟩
  | [], .quoted got, hgot, h, hc => by
    rw [tokens, List.mem_singleton] at h
    subst h
    exact ⟨fun hquote => hgot (hquote ▸ hc), .inl hc⟩
  | x :: line, state, hgot, h, hc => by
    have hlater : ∀ {next : Token}, '"' ∉ next.got → word ∈ tokens next line →
        (∀ c ∈ next.got, c ∈ state.got ∨ c = x) → c ≠ '"' ∧ (c ∈ state.got ∨ c ∈ x :: line) := by
      intro next hnext hword hfrom
      obtain ⟨hquote, hmem | hmem⟩ := mem_tokens hnext hword hc
      · rcases hfrom c hmem with hmem | rfl
        · exact ⟨hquote, .inl hmem⟩
        · exact ⟨hquote, .inr List.mem_cons_self⟩
      · exact ⟨hquote, .inr (List.mem_cons_of_mem _ hmem)⟩
    have hdone : word = state.got → c ≠ '"' ∧ (c ∈ state.got ∨ c ∈ x :: line) := by
      rintro rfl
      exact ⟨fun hquote => hgot (hquote ▸ hc), .inl hc⟩
    have hgrown : ∀ {got : Text}, '"' ∉ got → x ≠ '"' → '"' ∉ got ++ [x] := by
      intro got hgot hx hquote
      rcases List.mem_append.1 hquote with hquote | hquote
      · exact hgot hquote
      · exact hx (List.mem_singleton.1 hquote).symm
    cases state with
    | none =>
      rw [tokens] at h
      split_ifs at h with hblank hquote
      · exact hlater (by simp [Token.got]) h (by simp [Token.got])
      · exact hlater (by simp [Token.got]) h (by simp [Token.got])
      · have hfresh : '"' ∉ (Token.word [x]).got := fun h' => hquote (List.mem_singleton.1 h').symm
        exact hlater hfresh h (by simp [Token.got])
    | word got =>
      rw [tokens] at h
      split_ifs at h with hblank hquote
      · rcases List.mem_cons.1 h with h | h
        · exact hdone h
        · exact hlater (by simp [Token.got]) h (by simp [Token.got])
      · rcases List.mem_cons.1 h with h | h
        · exact hdone h
        · exact hlater (by simp [Token.got]) h (by simp [Token.got])
      · have hmore : '"' ∉ (Token.word (got ++ [x])).got := hgrown hgot hquote
        exact hlater hmore h (by simp [Token.got])
    | quoted got =>
      rw [tokens] at h
      split_ifs at h with hquote
      · rcases List.mem_cons.1 h with h | h
        · exact hdone h
        · exact hlater (by simp [Token.got]) h (by simp [Token.got])
      · have hmore : '"' ∉ (Token.quoted (got ++ [x])).got := hgrown hgot hquote
        exact hlater hmore h (by simp [Token.got])

def Bare (w : Text) : Prop := ∀ c ∈ w, isBlank c = false ∧ c ≠ '"'

theorem bare_of_all {w : Text} (h : (w.all fun c => !isBlank c && c != '"') = true) : Bare w := by
  intro c hc
  simpa using List.all_eq_true.1 h c hc

theorem tokens_word : ∀ (w got rest : Text), Bare w →
    tokens (.word got) (w ++ rest) = tokens (.word (got ++ w)) rest
  | [], got, rest, _ => by simp
  | c :: w, got, rest, h => by
    obtain ⟨hblank, hquote⟩ := h c List.mem_cons_self
    rw [List.cons_append, tokens, if_neg (by simp [hblank]), if_neg hquote,
      tokens_word w _ rest fun c' hc' => h c' (List.mem_cons_of_mem _ hc'), List.append_assoc,
      List.singleton_append]

theorem tokens_first {c : Char} {w : Text} (h : Bare (c :: w)) (rest : Text) :
    tokens .none (c :: w ++ rest) = tokens (.word (c :: w)) rest := by
  obtain ⟨hblank, hquote⟩ := h c List.mem_cons_self
  rw [List.cons_append, tokens, if_neg (by simp [hblank]), if_neg hquote,
    tokens_word w [c] rest fun c' hc' => h c' (List.mem_cons_of_mem _ hc')]
  rfl

theorem tokens_quoted : ∀ (z got rest : Text), '"' ∉ z →
    tokens (.quoted got) (z ++ '"' :: rest) = (got ++ z) :: tokens .none rest
  | [], got, rest, _ => by simp [tokens]
  | c :: z, got, rest, h => by
    rw [List.mem_cons, not_or] at h
    rw [List.cons_append, tokens, if_neg (Ne.symm h.1), tokens_quoted z _ rest h.2,
      List.append_assoc, List.singleton_append]

/-- What a scope has unbound told. -/
def unboundTold (s : Scope) : List (List Text) :=
  (zonesOf s.policy).flatMap fun zone =>
    [["forward-zone:".toList], ["name:".toList, zone]] ++
      s.policy.servers.map (fun server => ["forward-addr:".toList, server.text]) ++
      if s.policy.tls then [["forward-tls-upstream:".toList, "yes".toList]] else []

/-- A scope unbound's file can carry. -/
def UnboundPlain (s : Scope) : Prop :=
  ∀ d ∈ s.policy.domains, '\n' ∉ d.suffix ∧ '"' ∉ d.suffix

theorem unbound_name_line {zone : Text} (hnewline : '\n' ∉ zone) (hquote : '"' ∉ zone) :
    ('\n' ∉ "\tname: \"".toList ++ zone ++ ['"'] ∧
      isComment ("\tname: \"".toList ++ zone ++ ['"']) = false) ∧
      tokens .none ("\tname: \"".toList ++ zone ++ ['"']) = ["name:".toList, zone] := by
  refine ⟨⟨fun h => ?_, rfl⟩, ?_⟩
  · rw [List.mem_append, List.mem_append] at h
    rcases h with (h | h) | h
    · exact absurd h (by decide)
    · exact hnewline h
    · exact absurd h (by decide)
  · change tokens .none ('n' :: "ame:".toList ++ ' ' :: '"' :: (zone ++ ['"'])) = _
    rw [tokens_first (bare_of_all rfl)]
    change "name:".toList :: tokens (.quoted []) (zone ++ '"' :: []) = _
    rw [tokens_quoted zone [] [] hquote]
    rfl

theorem unbound_addr_line (server : Server) :
    ('\n' ∉ "\tforward-addr: ".toList ++ server.text ∧
      isComment ("\tforward-addr: ".toList ++ server.text) = false) ∧
      tokens .none ("\tforward-addr: ".toList ++ server.text) =
        ["forward-addr:".toList, server.text] := by
  obtain ⟨⟨hne, htext⟩, -, hquote⟩ := server_text server
  refine ⟨⟨fun h => ?_, rfl⟩, ?_⟩
  · rcases List.mem_append.1 h with h | h
    · exact absurd h (by decide)
    · exact (htext _ h).2 rfl
  · have hbare : Bare server.text := fun c hc =>
      ⟨(htext c hc).1, fun h => hquote (h ▸ hc)⟩
    change tokens .none ('f' :: "orward-addr:".toList ++ ' ' :: server.text) = _
    rw [tokens_first (bare_of_all rfl)]
    change "forward-addr:".toList :: tokens .none server.text = _
    cases htext' : server.text with
    | nil => exact absurd htext' hne
    | cons c rest =>
      rw [htext'] at hbare
      have := tokens_first hbare []
      rw [List.append_nil] at this
      rw [this]
      rfl

/-- unbound's file reads back exactly where the scopes are plain. -/
theorem unboundRead_iff {scopes : List Scope} (hnames : ∀ s ∈ scopes, '\n' ∉ s.name) :
    unboundRead (unlines (generated :: scopes.flatMap unboundLines)) =
      scopes.flatMap unboundTold ↔ ∀ s ∈ scopes, UnboundPlain s := by
  constructor
  · intro hread s hs d hd
    have hzone : d.suffix ∈ zonesOf s.policy := by
      unfold zonesOf
      rw [if_neg (List.ne_nil_of_mem hd)]
      exact List.mem_map_of_mem hd
    have hmem : ["name:".toList, d.suffix] ∈
        unboundRead (unlines (generated :: scopes.flatMap unboundLines)) := by
      rw [hread]
      refine List.mem_flatMap.2 ⟨s, hs, List.mem_flatMap.2 ⟨d.suffix, hzone, ?_⟩⟩
      exact List.mem_append_left _ (List.mem_append_left _
        (List.mem_cons_of_mem _ List.mem_cons_self))
    obtain ⟨line, hline, htokens⟩ := List.mem_map.1 hmem
    have hword : d.suffix ∈ tokens .none line := by
      rw [htokens]
      exact List.mem_cons_of_mem _ List.mem_cons_self
    refine ⟨fun hnewline => ?_, fun hquote => ?_⟩
    · have := (mem_tokens (by simp [Token.got]) hword hnewline).2
      rw [Token.got, or_iff_right (by simp)] at this
      exact (not_newline_of_mem_splitOn (List.mem_of_mem_filter hline) this).1 rfl
    · exact (mem_tokens (by simp [Token.got]) hword hquote).1 rfl
  · intro hplain
    have hscopes : Reads (tokens .none) (generated :: scopes.flatMap unboundLines)
        ([] ++ scopes.flatMap unboundTold) := by
      refine reads_append (a := [generated]) (reads_comments (by simp [generated_comment])) ?_
      refine reads_flatMap fun s hs => ?_
      refine reads_append (reads_scope_name (hnames s hs)) (reads_flatMap fun zone hzone => ?_)
      have hname : '\n' ∉ zone ∧ '"' ∉ zone := by
        unfold zonesOf at hzone
        split_ifs at hzone
        · rw [List.mem_singleton.1 hzone]
          decide
        · obtain ⟨d, hd, rfl⟩ := List.mem_map.1 hzone
          exact hplain s hs d hd
      have haddrs : Reads (tokens .none)
          (s.policy.servers.map fun server => "\tforward-addr: ".toList ++ server.text)
          (s.policy.servers.map fun server => ["forward-addr:".toList, server.text]) := by
        rw [List.map_eq_flatMap, List.map_eq_flatMap]
        exact reads_flatMap fun server _ => reads_line (unbound_addr_line server)
      have htls : Reads (tokens .none)
          (if s.policy.tls then ["\tforward-tls-upstream: yes".toList] else [])
          (if s.policy.tls then [["forward-tls-upstream:".toList, "yes".toList]] else []) := by
        split_ifs
        · exact reads_line (by decide)
        · exact ⟨by simp, rfl⟩
      have hzoneline : Reads (tokens .none) ["forward-zone:".toList]
          [["forward-zone:".toList]] := reads_line (by decide)
      exact reads_append (reads_append (reads_append hzoneline
        (reads_line (unbound_name_line hname.1 hname.2))) haddrs) htls
    unfold unboundRead
    rw [directives_unlines _ hscopes.1]
    exact hscopes.2

/-! ## The three files -/

/-- A text is written where it is not too long. -/
theorem finish_iff {P : Text → Prop} {text : Text} :
    (∀ t, finish text = some t → P t) ↔ renderMax < text.length ∨ P text := by
  unfold finish
  split_ifs with hsize
  · simp [hsize]
  · simp [not_le.1 hsize]

section Document

variable {d : Document} {reports : List Report}

theorem name_of_scopeOf {i : Interface} {s : Scope} (h : d.scopeOf reports i = some s) :
    s.name = i.name := by
  unfold Document.scopeOf at h
  generalize (if i.claims then reports.find? fun r => r.interface = i.name else none) = r at h
  dsimp only at h
  cases hdns : i.dns with
  | none =>
    rw [hdns] at h
    dsimp only at h
    split_ifs at h
    cases h
    rfl
  | some p =>
    rw [hdns] at h
    dsimp only at h
    split_ifs at h
    cases h
    rfl

theorem name_of_mem_global {s : Scope} (h : s ∈ d.global) : s.name = globalScope := by
  unfold Document.global at h
  split_ifs at h
  · cases h
  · rw [List.mem_singleton.1 h]

/-- No scope of a document has a newline in its name. -/
theorem not_newline_of_mem_scopesOf {s : Scope} (h : s ∈ scopesOf d reports) : '\n' ∉ s.name := by
  rcases List.mem_append.1 h with h | h
  · rw [name_of_mem_global h]
    exact (by decide : '\n' ∉ globalScope)
  · obtain ⟨i, -, hi⟩ := List.mem_filterMap.1 h
    rw [name_of_scopeOf hi]
    intro hnewline
    exact absurd (i.usable _ hnewline) (by decide)

theorem nodup_scoped : ((d.scoped reports).map Scope.name).Nodup := by
  have hdistinct := d.distinct
  unfold List.Nodup at hdistinct ⊢
  rw [List.pairwise_map] at hdistinct ⊢
  refine List.pairwise_filterMap.2 (hdistinct.imp fun hne s hs s' hs' => ?_)
  rwa [name_of_scopeOf hs, name_of_scopeOf hs']

/-- The scopes of the interfaces, and the global one after them. -/
def Document.ordered (d : Document) (reports : List Report) : List Scope :=
  d.scoped reports ++ d.global

/-- Of what no scope before says, what a scope says and what those after it say begin alike, to the
end of the shorter. -/
def Interchange {α : Type*} [DecidableEq α] (before : List Scope) (s : Scope) (after : List Scope)
    (values : Scope → List α) : Prop :=
  anew (before.flatMap values) (after.flatMap values) <+: anew (before.flatMap values) (values s) ∨
    anew (before.flatMap values) (values s) <+: anew (before.flatMap values) (after.flatMap values)

/-- No interface with a scope goes by the name of the global one, or what it says might come behind
what the later interfaces and the global scope say as well as ahead of it. -/
def InOrder (d : Document) (reports : List Report) : Prop :=
  ∀ before s after, d.scoped reports = before ++ s :: after → s.name = globalScope →
    Interchange before s (after ++ d.global) (fun s => s.policy.servers) ∧
      Interchange before s (after ++ d.global) (fun s => s.policy.search) ∧
        Interchange before s (after ++ d.global) (fun s => s.policy.options)

theorem filter_global {l : List Scope} (h : ∀ s ∈ l, s.name = globalScope) :
    l.filter (fun s => s.name ≠ globalScope) = [] ∧ l.filter (fun s => s.name = globalScope) = l :=
  ⟨List.filter_eq_nil_iff.2 fun s hs => by simp [h s hs],
    List.filter_eq_self.2 fun s hs => by simp [h s hs]⟩

theorem filter_apart {l : List Scope} (h : ∀ s ∈ l, s.name ≠ globalScope) :
    l.filter (fun s => s.name ≠ globalScope) = l ∧ l.filter (fun s => s.name = globalScope) = [] :=
  ⟨List.filter_eq_self.2 fun s hs => by simp [h s hs],
    List.filter_eq_nil_iff.2 fun s hs => by simp [h s hs]⟩

theorem flatten_scopesOf (h : ∀ s ∈ d.scoped reports, s.name ≠ globalScope) :
    flatten (scopesOf d reports) = flatOf (d.ordered reports) := by
  have hglobal := filter_global fun s => name_of_mem_global (d := d) (s := s)
  rw [flatten_eq, byName, scopesOf, Document.ordered, List.filter_append, List.filter_append,
    hglobal.1, hglobal.2, (filter_apart h).1, (filter_apart h).2, List.nil_append, List.append_nil]

theorem byName_scopesOf {before after : List Scope} {s : Scope}
    (hscoped : d.scoped reports = before ++ s :: after) (hs : s.name = globalScope) :
    byName (scopesOf d reports) = before ++ ((after ++ d.global) ++ [s]) := by
  have hnodup : ((d.scoped reports).map Scope.name).Nodup := nodup_scoped
  rw [hscoped, List.map_append, List.map_cons, List.nodup_append, List.nodup_cons, hs] at hnodup
  obtain ⟨-, ⟨hlater, -⟩, hearlier⟩ := hnodup
  have hbefore := filter_apart fun x hx => hearlier _ (List.mem_map_of_mem hx) _ List.mem_cons_self
  have hafter :=
    filter_apart fun x hx heq => hlater (heq ▸ List.mem_map_of_mem (f := Scope.name) hx)
  have hglobal := filter_global fun x => name_of_mem_global (d := d) (s := x)
  have hself : [s].filter (fun s => s.name ≠ globalScope) = [] ∧
      [s].filter (fun s => s.name = globalScope) = [s] := filter_global (by simpa using hs)
  rw [byName, scopesOf, hscoped, List.append_cons, List.filter_append, List.filter_append,
    List.filter_append, List.filter_append, List.filter_append, List.filter_append, hbefore.1,
    hbefore.2, hafter.1, hafter.2, hglobal.1, hglobal.2, hself.1, hself.2]
  simp

theorem interchange_iff {α : Type*} [DecidableEq α] (before : List Scope) (s : Scope)
    (after : List Scope) (values : Scope → List α) :
    firsts ((before ++ (after ++ [s])).flatMap values) =
        firsts ((before ++ ([s] ++ after)).flatMap values) ↔ Interchange before s after values := by
  rw [List.flatMap_append, List.flatMap_append, List.flatMap_append, List.flatMap_append,
    List.flatMap_singleton]
  exact firsts_swap _ _ _

/-- The scopes flatten to what comes first exactly where the order loses nothing. -/
theorem flatten_scopesOf_iff :
    flatten (scopesOf d reports) = flatOf (d.ordered reports) ↔ InOrder d reports := by
  have hat : ∀ before s after, d.scoped reports = before ++ s :: after → s.name = globalScope →
      (flatten (scopesOf d reports) = flatOf (d.ordered reports) ↔
        Interchange before s (after ++ d.global) (fun s => s.policy.servers) ∧
          Interchange before s (after ++ d.global) (fun s => s.policy.search) ∧
            Interchange before s (after ++ d.global) (fun s => s.policy.options)) := by
    intro before s after hscoped hs
    have hordered : d.ordered reports = before ++ ([s] ++ (after ++ d.global)) := by
      simp [Document.ordered, hscoped]
    rw [flatten_eq, byName_scopesOf hscoped hs, hordered]
    simp only [flatOf, Flat.mk.injEq, interchange_iff]
  refine ⟨fun h before s after hscoped hs => (hat before s after hscoped hs).1 h, fun h => ?_⟩
  by_cases hnone : ∀ s ∈ d.scoped reports, s.name ≠ globalScope
  · exact flatten_scopesOf hnone
  · push Not at hnone
    obtain ⟨s, hmem, hs⟩ := hnone
    obtain ⟨before, after, hscoped⟩ := List.append_of_mem hmem
    exact (hat before s after hscoped hs).2 (h before s after hscoped hs)

theorem mem_ordered {s : Scope} : s ∈ d.ordered reports ↔ s ∈ scopesOf d reports := by
  unfold scopesOf Document.ordered
  rw [List.mem_append, List.mem_append, or_comm]

end Document

/-- A machine that writes `resolv.conf`, and whose `eth0` has what a helper reports. -/
def reportedDocument : Document where
  dns := { mode := .writeResolvConf }
  interfaces := [{ name := "eth0".toList, usable := by simp [isSpace], reported := true }]
  distinct := List.nodup_singleton _

def helperReports : List Report :=
  reportsOf [("eth0".toList, "dns=10.0.0.1\nsearch=corp.example evil.example\n".toList)]

end Netcfgd.Resolver
