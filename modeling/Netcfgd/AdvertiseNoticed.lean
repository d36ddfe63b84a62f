import Netcfgd.Advertise

/-!
# A changed advertisement, and an unchanged one

What radvd announces is read back from its file as prefixes only, those of fewer than 49
characters, and compared with the policy's : the flags, the lifetime and the servers are compared
with nothing. So a reload is planned for a changed file, and for no other, exactly where the change
is one of prefixes that were read, and those unchanged were all read (`advertisement_noticed`).
-/

namespace Netcfgd.Advertise

open Netcfgd.Compile (isSpace)
open Netcfgd.Resolver (Text Word unlines words splitOn_unlines words_listLine)

/-! ## Printed words -/

/-- A word as a printed prefix or server is. -/
def Printed (w : Text) : Prop := w ≠ [] ∧ ∀ c ∈ w, ' ' < c

/-- A policy, the delegations it resolves in, and the interface's `dns` block. -/
structure Setting where
  policy : RaPolicy
  delegations : List Delegation
  dns : Option Resolver.Policy

theorem printed_of_lt {c : Char} (h : ' ' < c) :
    Resolver.isBlank c = false ∧ c ≠ '\n' ∧ c ≠ '\x00' := by
  have hne : ∀ x : Char, ¬(' ' < x) → c ≠ x := fun x hx heq => hx (heq ▸ h)
  refine ⟨?_, hne _ (by decide), hne _ (by decide)⟩
  unfold Resolver.isBlank
  simp [hne ' ' (by decide), hne '\t' (by decide)]

theorem Printed.word {w : Text} (h : Printed w) : Word w :=
  ⟨h.1, fun c hc => ⟨(printed_of_lt (h.2 c hc)).1, (printed_of_lt (h.2 c hc)).2.1⟩⟩

/-- Whatever is announced is a printed word. -/
theorem printed_of_mem_announced {p : RaPolicy} {delegations : List Delegation} {x : Text}
    (h : x ∈ announced p delegations) : Printed x := by
  unfold announced at h
  rcases List.mem_append.1 h with h | h
  · obtain ⟨text, htext, rfl⟩ := List.mem_map.1 h
    obtain ⟨ref, -, href⟩ := List.mem_filterMap.1 htext
    obtain ⟨delegation, -, hblock⟩ := Option.bind_eq_some_iff.1 href
    split_ifs at hblock
    obtain ⟨block, -, hderived⟩ := Option.bind_eq_some_iff.1 hblock
    obtain ⟨a, ha, -⟩ := Option.map_eq_some_iff.1 (Address.canonical_fromDelegation hderived)
    exact Address.lt_of_parse ha
  · obtain ⟨known, -, rfl⟩ := List.mem_map.1 h
    have hknown := known.2
    unfold isStaticPrefix at hknown
    split at hknown
    · rename_i hparse
      exact Address.lt_of_parse hparse
    · cases hknown

theorem printed_of_mem_serversOf {dns : Option Resolver.Policy} {x : Text} (h : x ∈ serversOf dns) :
    Printed x := by
  obtain ⟨s, -, hs⟩ := List.mem_filterMap.1 h
  have htext : x = s.text := by
    split at hs
    · exact (Option.some_inj.1 hs).symm
    · cases hs
  rw [htext]
  refine ⟨(Ip.text_shape s.addr).2.1, fun c hc => ?_⟩
  rcases Resolver.mem_ip_text hc with rfl | rfl | ⟨d, hd, rfl⟩
  · decide
  · decide
  · interval_cases d <;> decide

/-! ## Lists in one text -/

theorem foldl_join : ∀ {texts : List Text} {buf : Text}, buf ≠ [] →
    texts.foldl (fun buf text => if buf = [] then text else buf ++ ' ' :: text) buf =
      buf ++ texts.flatMap (' ' :: ·)
  | [], buf, _ => by simp
  | x :: texts, buf, h => by
    rw [List.foldl_cons, if_neg h, foldl_join (by simp), List.flatMap_cons, List.append_assoc]

theorem words_join {texts : List Text} (h : ∀ x ∈ texts, Printed x) :
    words (join texts) = texts := by
  cases texts with
  | nil => rfl
  | cons x texts =>
    obtain ⟨hx, hrest⟩ := List.forall_mem_cons.1 h
    rw [join, List.foldl_cons, if_pos rfl, foldl_join hx.1]
    exact words_listLine hx.1 (fun c hc => (hx.word.2 c hc).1) fun y hy => (hrest y hy).word

theorem join_inj {a b : List Text} (ha : ∀ x ∈ a, Printed x) (hb : ∀ x ∈ b, Printed x) :
    join a = join b ↔ a = b := by
  refine ⟨fun h => ?_, congrArg join⟩
  rw [← words_join ha, h, words_join hb]

theorem flatMap_blank_inj {a b : List Text} (ha : ∀ x ∈ a, Printed x) (hb : ∀ x ∈ b, Printed x)
    (h : a.flatMap (' ' :: ·) = b.flatMap (' ' :: ·)) : a = b := by
  have hkey : ∀ c ∈ ['-'], Resolver.isBlank c = false := by
    simp [Resolver.isBlank]
  have hwords : '-' :: a.flatMap (' ' :: ·) = '-' :: b.flatMap (' ' :: ·) := by rw [h]
  have hlist : ['-'] :: a = ['-'] :: b := by
    rw [← words_listLine (by simp) hkey fun x hx => (ha x hx).word,
      ← words_listLine (by simp) hkey fun x hx => (hb x hx).word]
    exact congrArg words hwords
  exact (List.cons.inj hlist).2

/-! ## The lines of the file -/

def Plain (l : Text) : Prop := ∀ c ∈ l, c ≠ '\n' ∧ c ≠ '\x00'

theorem plain_of_all {l : Text} (h : l.all (fun c => c != '\n' && c != '\x00') = true) :
    Plain l := fun c hc => by simpa using List.all_eq_true.1 h c hc

theorem plain_append {a b : Text} (ha : Plain a) (hb : Plain b) : Plain (a ++ b) :=
  List.forall_mem_append.2 ⟨ha, hb⟩

theorem Printed.plain {w : Text} (h : Printed w) : Plain w :=
  fun c hc => (printed_of_lt (h.2 c hc)).2

theorem plain_name (link : Link) : Plain link.name.toList := by
  intro c hc
  refine ⟨fun hnewline => ?_, (link.usable c hc).2⟩
  have := (link.usable c hc).1
  rw [hnewline] at this
  exact absurd this (by decide)

theorem plain_onOff (b : Bool) : Plain (onOff b) := by
  cases b
  · exact plain_of_all rfl
  · exact plain_of_all rfl

theorem plain_decimal (n : ℕ) : Plain (decimal n) := by
  intro c hc
  obtain ⟨d, hd, rfl⟩ := List.mem_map.1 hc
  have hlt := Json.digits_lt n d hd
  interval_cases d <;> decide

def Silent (l : Text) : Prop := Plain l ∧ prefixOfLine l = none

theorem silent_of_head {l : Text} {c : Char} {rest : Text}
    (hl : l.dropWhile Resolver.isBlank = c :: rest) (hc : c ≠ 'p') (hplain : Plain l) :
    Silent l := by
  refine ⟨hplain, ?_⟩
  unfold prefixOfLine
  rw [hl]
  dsimp only
  rw [if_neg]
  rintro ⟨-, htake⟩
  rw [List.take_succ_cons] at htake
  exact hc (List.cons.inj htake).1

theorem silent_head (link : Link) (managed other : Bool) :
    ∀ l ∈ headLines link managed other, Silent l := by
  unfold headLines
  simp only [List.forall_mem_cons, List.not_mem_nil, false_imp_iff, implies_true, and_true]
  refine ⟨?_, ?_, ?_, ?_, ?_, ?_⟩
  · exact silent_of_head rfl (by decide)
      (plain_append (plain_append (plain_of_all rfl) (plain_name link)) (plain_of_all rfl))
  · exact silent_of_head rfl (by decide) (plain_append (plain_of_all rfl) (plain_name link))
  · exact silent_of_head rfl (by decide) (plain_of_all rfl)
  · exact silent_of_head rfl (by decide) (plain_of_all rfl)
  · exact silent_of_head rfl (by decide)
      (plain_append (plain_append (plain_of_all rfl) (plain_onOff managed)) (plain_of_all rfl))
  · exact silent_of_head rfl (by decide)
      (plain_append (plain_append (plain_of_all rfl) (plain_onOff other)) (plain_of_all rfl))

theorem silent_lifetime (n : ℕ) : Silent (lifetimeLine n) :=
  silent_of_head rfl (by decide)
    (plain_append (plain_append (plain_of_all rfl) (plain_decimal n)) (plain_of_all rfl))

theorem silent_servers {servers : List Text} (h : ∀ x ∈ servers, Printed x) :
    ∀ l ∈ serverLines servers, Silent l := by
  unfold serverLines
  split_ifs
  · simp
  · have hplain : Plain (servers.flatMap (' ' :: ·)) := by
      intro c hc
      obtain ⟨x, hx, hc⟩ := List.mem_flatMap.1 hc
      rcases List.mem_cons.1 hc with rfl | hc
      · decide
      · exact (h x hx).plain c hc
    intro l hl
    rw [List.mem_singleton.1 hl]
    exact silent_of_head rfl (by decide)
      (plain_append (plain_append (plain_of_all rfl) hplain) (plain_of_all rfl))

/-- The prefixes short enough for the reader. -/
def fits (x : Text) : Bool := x.length + 1 < addressMax

theorem prefixOfLine_prefix {x : Text} (h : Printed x) :
    prefixOfLine ("\tprefix ".toList ++ x) = if fits x then some x else none := by
  obtain ⟨hne, hlt⟩ := h
  have hblank : ∀ c ∈ x, Resolver.isBlank c = false := fun c hc => (printed_of_lt (hlt c hc)).1
  have hdrop : x.dropWhile Resolver.isBlank = x := by
    cases x with
    | nil => rfl
    | cons c x => exact List.dropWhile_cons_of_neg (by simp [hblank c List.mem_cons_self])
  have htake : x.takeWhile (' ' < ·) = x := List.takeWhile_eq_self_iff.2 fun c hc => by
    simpa using hlt c hc
  have hline : ("\tprefix ".toList ++ x).dropWhile Resolver.isBlank = "prefix ".toList ++ x := rfl
  have hseven : ("prefix ".toList ++ x).drop 7 = x := rfl
  have hpos : 0 < x.length := List.length_pos_of_ne_nil hne
  unfold prefixOfLine
  rw [hline]
  dsimp only
  rw [if_pos ⟨by rw [List.length_append]; simp; omega, rfl⟩, hseven, hdrop, htake]
  unfold fits addressMax
  by_cases hroom : x.length + 1 < 50
  · rw [List.take_of_length_le (by omega)]
    simp [hne, hroom]
  · rw [if_neg (by simp [List.length_take]; omega), if_neg (by simpa using hroom)]

theorem plain_prefixLines {x : Text} (h : Printed x) : ∀ l ∈ prefixLines x, Plain l := by
  unfold prefixLines
  simp only [List.forall_mem_cons, List.not_mem_nil, false_imp_iff, implies_true, and_true]
  exact ⟨plain_append (plain_of_all rfl) h.plain, plain_of_all rfl, plain_of_all rfl,
    plain_of_all rfl,
    plain_of_all rfl⟩

theorem filterMap_prefixLines {x : Text} (h : Printed x) :
    (prefixLines x).filterMap prefixOfLine = [x].filter fits := by
  unfold prefixLines
  rw [List.filterMap_cons, prefixOfLine_prefix h]
  have hrest : ["\t\x7b".toList, "\t\tAdvOnLink on;".toList, "\t\tAdvAutonomous on;".toList,
      "\t\x7d;".toList].filterMap prefixOfLine = [] := by decide
  by_cases hfits : fits x = true
  · simp only [hfits, if_true, hrest, List.filter_cons_of_pos, List.filter_nil]
  · simp only [hfits, Bool.false_eq_true, if_false, hrest, List.filter_cons_of_neg, List.filter_nil,
      not_false_eq_true]

theorem filterMap_blocks : ∀ {prefixes : List Text}, (∀ x ∈ prefixes, Printed x) →
    (prefixes.flatMap prefixLines).filterMap prefixOfLine = prefixes.filter fits
  | [], _ => rfl
  | x :: prefixes, h => by
    obtain ⟨hx, hrest⟩ := List.forall_mem_cons.1 h
    rw [List.flatMap_cons, List.filterMap_append, filterMap_prefixLines hx, filterMap_blocks hrest,
      ← List.filter_append, List.singleton_append]

theorem filterMap_silent {ls : List Text} (h : ∀ l ∈ ls, Silent l) :
    ls.filterMap prefixOfLine = [] := by
  rw [List.filterMap_eq_nil_iff]
  exact fun l hl => (h l hl).2

section File

variable {link : Link} {p : RaPolicy} {prefixes servers : List Text}

theorem silent_optional (hservers : ∀ x ∈ servers, Printed x) :
    (∀ l ∈ p.lifetime.toList.map lifetimeLine, Silent l) ∧
      (∀ l ∈ if p.dns then serverLines servers else [], Silent l) ∧
      ∀ l ∈ ["\x7d;".toList], Silent l := by
  refine ⟨fun l hl => ?_, ?_, fun l hl => ?_⟩
  · obtain ⟨n, -, rfl⟩ := List.mem_map.1 hl
    exact silent_lifetime n
  · split_ifs
    · exact silent_servers hservers
    · simp
  · rw [List.mem_singleton.1 hl]
    exact silent_of_head rfl (by decide) (plain_of_all rfl)

variable (link) in
theorem plain_raLines (hprefixes : ∀ x ∈ prefixes, Printed x)
    (hservers : ∀ x ∈ servers, Printed x) :
    ∀ l ∈ raLines link p prefixes servers, Plain l := by
  obtain ⟨hlifetime, hdns, hend⟩ := silent_optional (p := p) hservers
  intro l hl
  unfold raLines at hl
  rcases List.mem_append.1 hl with hl | hl
  · exact (silent_head _ _ _ l hl).1
  rcases List.mem_append.1 hl with hl | hl
  · exact (hlifetime l hl).1
  rcases List.mem_append.1 hl with hl | hl
  · obtain ⟨x, hx, hl⟩ := List.mem_flatMap.1 hl
    exact plain_prefixLines (hprefixes x hx) l hl
  rcases List.mem_append.1 hl with hl | hl
  · exact (hdns l hl).1
  · exact (hend l hl).1

theorem prefixesOf_raLines (hprefixes : ∀ x ∈ prefixes, Printed x)
    (hservers : ∀ x ∈ servers, Printed x) :
    prefixesOf (unlines (raLines link p prefixes servers)) = prefixes.filter fits := by
  have hplain := plain_raLines link (p := p) hprefixes hservers
  obtain ⟨hlifetime, hdns, hend⟩ := silent_optional (p := p) hservers
  have htext : (unlines (raLines link p prefixes servers)).takeWhile (· ≠ '\x00') =
      unlines (raLines link p prefixes servers) := by
    rw [List.takeWhile_eq_self_iff]
    intro c hc
    obtain ⟨l, hl, hc⟩ := List.mem_flatMap.1 hc
    rcases List.mem_append.1 hc with hc | hc
    · simpa using (hplain l hl c hc).2
    · rw [List.mem_singleton.1 hc]
      decide
  unfold prefixesOf
  rw [htext, splitOn_unlines fun l hl hnewline => (hplain l hl _ hnewline).1 rfl, raLines]
  simp only [List.filterMap_append, filterMap_silent (silent_head _ _ _),
    filterMap_silent hlifetime, filterMap_silent hdns, filterMap_silent hend,
    filterMap_blocks hprefixes, List.nil_append]
  rw [List.append_nil]
  exact List.append_nil _

end File

/-! ## What the file shows -/

/-- What of a policy and its surroundings the file shows. -/
structure Shown where
  managed : Bool
  otherConfig : Bool
  lifetime : Option ℕ
  prefixes : List Text
  servers : List Text
  deriving DecidableEq

theorem decimal_inj {m n : ℕ} (h : decimal m = decimal n) : m = n := by
  have hdigits : Json.decimalDigits m = Json.decimalDigits n := by
    have hm : (decimal m).map Inet.digitOf = (Json.decimalDigits m).map some := by
      rw [decimal, List.map_map]
      exact List.map_congr_left fun d hd =>
        Inet.digitOf_digitChar (by have := Json.digits_lt m d hd; omega)
    have hn : (decimal n).map Inet.digitOf = (Json.decimalDigits n).map some := by
      rw [decimal, List.map_map]
      exact List.map_congr_left fun d hd =>
        Inet.digitOf_digitChar (by have := Json.digits_lt n d hd; omega)
    exact List.map_injective_iff.2 (Option.some_injective ℕ) (by rw [← hm, h, hn])
  rw [← Json.fold_decimalDigits m, hdigits, Json.fold_decimalDigits]

theorem onOff_inj {a b : Bool} (h : onOff a = onOff b) : a = b := by
  revert a b
  decide

theorem blocks_inj {a b rest rest' : List Text}
    (hrest : ∀ l ∈ rest.head?, l.take 2 ≠ "\tp".toList)
    (hrest' : ∀ l ∈ rest'.head?, l.take 2 ≠ "\tp".toList)
    (h : a.flatMap prefixLines ++ rest = b.flatMap prefixLines ++ rest') :
    a = b ∧ rest = rest' := by
  induction a generalizing b with
  | nil =>
    cases b with
    | nil => exact ⟨rfl, h⟩
    | cons y b =>
      rw [List.flatMap_nil, List.nil_append] at h
      rw [h] at hrest
      exact absurd rfl (hrest _ rfl)
  | cons x a ih =>
    cases b with
    | nil =>
      rw [List.flatMap_nil, List.nil_append] at h
      rw [← h] at hrest'
      exact absurd rfl (hrest' _ rfl)
    | cons y b =>
      rw [List.flatMap_cons, List.flatMap_cons, List.append_assoc, List.append_assoc] at h
      have hline : "\tprefix ".toList ++ x = "\tprefix ".toList ++ y := (List.cons.inj h).1
      have htail : a.flatMap prefixLines ++ rest = b.flatMap prefixLines ++ rest' :=
        List.append_cancel_left
          ((List.cons.inj h).2 : (prefixLines x).drop 1 ++ _ = (prefixLines x).drop 1 ++ _)
      obtain ⟨hab, hsame⟩ := ih htail
      exact ⟨by rw [List.append_cancel_left hline, hab], hsame⟩

theorem serverLines_inj {a b : List Text} (ha : ∀ x ∈ a, Printed x) (hb : ∀ x ∈ b, Printed x)
    (h : serverLines a ++ ["\x7d;".toList] = serverLines b ++ ["\x7d;".toList]) : a = b := by
  have hlines := List.append_cancel_right h
  unfold serverLines at hlines
  split_ifs at hlines with hanil hbnil hbnil
  · rw [hanil, hbnil]
  · exact flatMap_blank_inj ha hb
      (List.append_cancel_left (List.append_cancel_right (List.cons.inj hlines).1))

namespace Setting

def prefixes (s : Setting) : List Text := announced s.policy s.delegations

def readable (s : Setting) : List Text := s.prefixes.filter fits

/-- What of a setting the rendered file shows. -/
def shown (s : Setting) : Shown where
  managed := s.policy.managed
  otherConfig := s.policy.otherConfig
  lifetime := s.policy.lifetime
  prefixes := s.prefixes
  servers := if s.policy.dns then serversOf s.dns else []

def lines (link : Link) (s : Setting) : List Text :=
  raLines link s.policy s.prefixes (serversOf s.dns)

def text (link : Link) (s : Setting) : Option Text :=
  raRender link s.policy s.prefixes (serversOf s.dns)

theorem printed_servers (s : Setting) : ∀ x ∈ s.shown.servers, Printed x := by
  unfold shown
  dsimp only
  split_ifs
  · exact fun x => printed_of_mem_serversOf
  · simp

theorem lines_eq (link : Link) (s : Setting) :
    s.lines link = headLines link s.shown.managed s.shown.otherConfig ++
      (s.shown.lifetime.toList.map lifetimeLine ++ (s.shown.prefixes.flatMap prefixLines ++
        (serverLines s.shown.servers ++ ["\x7d;".toList]))) := by
  unfold lines raLines shown
  dsimp only
  split_ifs
  · rfl
  · rfl

theorem plain_lines (link : Link) (s : Setting) : ∀ l ∈ s.lines link, Plain l :=
  plain_raLines link (fun _ => printed_of_mem_announced) fun _ => printed_of_mem_serversOf

theorem server_heads (servers : List Text) :
    ∀ l ∈ (serverLines servers ++ ["\x7d;".toList]).head?,
      l.take 2 ≠ "\tp".toList ∧ l.take 2 ≠ "\tA".toList := by
  unfold serverLines
  split_ifs
  · intro l hl
    obtain rfl := Option.some_inj.1 hl
    decide
  · intro l hl
    obtain rfl := Option.some_inj.1 hl
    exact (by decide : "\tR".toList ≠ "\tp".toList ∧ "\tR".toList ≠ "\tA".toList)

theorem block_heads (prefixes servers : List Text) :
    ∀ l ∈ (prefixes.flatMap prefixLines ++ (serverLines servers ++ ["\x7d;".toList])).head?,
      l.take 2 ≠ "\tA".toList := by
  cases prefixes with
  | nil => exact fun l hl => (server_heads servers l hl).2
  | cons x prefixes =>
    intro l hl
    obtain rfl := Option.some_inj.1 hl
    exact (by decide : "\tp".toList ≠ "\tA".toList)

theorem lines_inj (link : Link) {s s' : Setting} :
    s.lines link = s'.lines link ↔ s.shown = s'.shown := by
  refine ⟨fun h => ?_, fun h => by rw [lines_eq, lines_eq, h]⟩
  rw [lines_eq, lines_eq] at h
  have hhead : headLines link s.shown.managed s.shown.otherConfig =
      headLines link s'.shown.managed s'.shown.otherConfig := List.append_inj_left h rfl
  have hrest := List.append_inj_right h rfl
  have hmanaged : s.shown.managed = s'.shown.managed := by
    have hline := congrArg (fun ls => ls[4]?) hhead
    exact onOff_inj (List.append_cancel_left (List.append_cancel_right (Option.some_inj.1 hline)))
  have hother : s.shown.otherConfig = s'.shown.otherConfig := by
    have hline := congrArg (fun ls => ls[5]?) hhead
    exact onOff_inj (List.append_cancel_left (List.append_cancel_right (Option.some_inj.1 hline)))
  have hlifetime : s.shown.lifetime = s'.shown.lifetime ∧
      s.shown.prefixes.flatMap prefixLines ++ (serverLines s.shown.servers ++ ["\x7d;".toList]) =
        s'.shown.prefixes.flatMap prefixLines ++
          (serverLines s'.shown.servers ++ ["\x7d;".toList]) := by
    have hnone := block_heads s.shown.prefixes s.shown.servers
    have hnone' := block_heads s'.shown.prefixes s'.shown.servers
    cases hs : s.shown.lifetime with
    | none =>
      cases hs' : s'.shown.lifetime with
      | none =>
        rw [hs, hs'] at hrest
        exact ⟨rfl, hrest⟩
      | some n =>
        rw [hs, hs', Option.toList_none, List.map_nil, List.nil_append] at hrest
        rw [hrest] at hnone
        exact absurd rfl (hnone _ rfl)
    | some m =>
      cases hs' : s'.shown.lifetime with
      | none =>
        rw [hs, hs', Option.toList_none, List.map_nil, List.nil_append] at hrest
        rw [← hrest] at hnone'
        exact absurd rfl (hnone' _ rfl)
      | some n =>
        rw [hs, hs'] at hrest
        have hline : lifetimeLine m = lifetimeLine n := (List.cons.inj hrest).1
        have hmn := decimal_inj (List.append_cancel_left (List.append_cancel_right hline))
        exact ⟨by rw [hmn], (List.cons.inj hrest).2⟩
  obtain ⟨hprefixes, hlast⟩ := blocks_inj (fun l hl => (server_heads _ l hl).1)
    (fun l hl => (server_heads _ l hl).1) hlifetime.2
  have hservers := serverLines_inj s.printed_servers s'.printed_servers hlast
  cases hs : s.shown
  cases hs' : s'.shown
  rw [hs, hs'] at hmanaged hother hlifetime hprefixes hservers
  obtain ⟨hlifetime, -⟩ := hlifetime
  dsimp only at hmanaged hother hlifetime hprefixes hservers
  rw [hmanaged, hother, hlifetime, hprefixes, hservers]

theorem eq_unlines {link : Link} {s : Setting} {text : Text} (h : s.text link = some text) :
    text = unlines (s.lines link) := by
  unfold Setting.text raRender at h
  split_ifs at h
  exact (Option.some_inj.1 h).symm

/-- Two rendered files are one file exactly where they show one setting. -/
theorem text_inj {link : Link} {s s' : Setting} {text text' : Text} (h : s.text link = some text)
    (h' : s'.text link = some text') : text = text' ↔ s.shown = s'.shown := by
  rw [eq_unlines h, eq_unlines h', ← lines_inj link]
  refine ⟨fun heq => ?_, congrArg unlines⟩
  have hlines : ∀ s : Setting, (unlines (s.lines link)).splitOn '\n' = s.lines link ++ [[]] :=
    fun s => splitOn_unlines fun l hl hnewline => (s.plain_lines link l hl _ hnewline).1 rfl
  have hsplit := congrArg (List.splitOn '\n') heq
  rw [hlines, hlines] at hsplit
  exact List.append_cancel_right hsplit

/-- What is read back of a rendered file : its prefixes that are short enough. -/
theorem prefixesOf_text {link : Link} {s : Setting} {text : Text} (h : s.text link = some text) :
    prefixesOf text = s.readable := by
  rw [eq_unlines h]
  exact prefixesOf_raLines (fun _ => printed_of_mem_announced) fun _ => printed_of_mem_serversOf

end Setting

/-! ## The plan -/

/-- A plan that reloads the advertiser of an interface. -/
def Reloads (plan : List Planned × List String) (name : String) : Prop :=
  ∃ x ∈ plan.1, x.op = .backendReload .routerAdvert name

section Plan

variable {link : Link} {seen : List ObservedBackend} {files : String → Option Text} {text : Text}

/-- The observer's reading of a file, none where it is too long. -/
def readBack (text : Text) : List Text := if text.length < readMax then prefixesOf text else []

theorem advertised_of_mem (hfile : files link.name = some text) {b : Backend}
    (hb : b ∈ canonicalize (observeAdvertised files seen))
    (hmine : b.kind = .routerAdvert ∧ b.running = true ∧ b.interface = link.name) :
    b.advertised = readBack text := by
  unfold canonicalize observeAdvertised at hb
  rw [List.mem_insertionSort] at hb
  obtain ⟨o, -, rfl⟩ := List.mem_map.1 hb
  by_cases ho : o.kind = .routerAdvert ∧ o.running = true
  · rw [if_pos ho] at hmine ⊢
    have hname : o.interface = link.name := hmine.2.2
    dsimp only
    rw [hname, hfile, readConfig, readBack]
    by_cases hsize : text.length < readMax <;> simp [Option.filter, hsize]
  · rw [if_neg ho] at hmine
    exact absurd ⟨hmine.1, hmine.2.1⟩ ho

theorem runningDaemon_eq (hfile : files link.name = some text)
    (hrunning : ∃ b ∈ seen, b.kind = .routerAdvert ∧ b.running = true ∧ b.interface = link.name) :
    (runningDaemon (canonicalize (observeAdvertised files seen)) link.name).map Backend.advertised =
      if readBack text = [] then none else some (readBack text) := by
  obtain ⟨o, ho, hkind, hrun, hname⟩ := hrunning
  unfold runningDaemon
  cases hfind : (canonicalize (observeAdvertised files seen)).find?
      (fun b => b.kind = .routerAdvert ∧ b.running ∧ b.interface = link.name) with
  | none =>
    have hnone := List.find?_eq_none.1 hfind
    have hmem : ({ o with
        advertised := ((readConfig (files o.interface)).map prefixesOf).getD [] } : Backend) ∈
          canonicalize (observeAdvertised files seen) := by
      unfold canonicalize observeAdvertised
      rw [List.mem_insertionSort]
      exact List.mem_map.2 ⟨o, ho, by rw [if_pos ⟨hkind, hrun⟩]⟩
    exact absurd (by simp [hkind, hrun, hname]) (hnone _ hmem)
  | some b =>
    have hb := List.mem_of_find?_eq_some hfind
    have hmine := List.find?_some hfind
    simp only [decide_eq_true_eq] at hmine
    have hadvertised := advertised_of_mem hfile hb hmine
    by_cases hnil : readBack text = []
    · simp [Option.filter, hadvertised, hnil]
    · simp [Option.filter, hadvertised, hnil]

/-- A running advertiser is reloaded exactly where its prefixes resolve and others were read
back. -/
theorem reloads_iff {new : Setting} {restarts : String → ℕ} (hfile : files link.name = some text)
    (hrunning : ∃ b ∈ seen, b.kind = .routerAdvert ∧ b.running = true ∧ b.interface = link.name)
    (hread : ∀ x ∈ readBack text, Printed x) :
    Reloads (planAdvertise ⟨new.delegations, canonicalize (observeAdvertised files seen), restarts⟩
        link.name (some new.policy)) link.name ↔
      resolvable new.delegations new.policy = true ∧ readBack text ≠ [] ∧
        new.prefixes ≠ readBack text := by
  have hdaemon := runningDaemon_eq hfile hrunning
  have hstart : ∀ (seen : Seen), ∀ x ∈ planBackend seen link.name,
      x.op ≠ .backendReload .routerAdvert link.name := by
    intro seen x hx
    unfold planBackend at hx
    split_ifs at hx
    · cases hx
    · cases hx
    · rw [List.mem_singleton.1 hx]
      simp
  unfold Reloads planAdvertise
  dsimp only
  by_cases hresolvable : resolvable new.delegations new.policy = true
  · rw [if_pos hresolvable]
    dsimp only
    unfold planReload
    dsimp only
    cases hrun : runningDaemon (canonicalize (observeAdvertised files seen)) link.name with
    | none =>
      rw [hrun, Option.map_none] at hdaemon
      have hnil : readBack text = [] := by
        by_contra hne
        rw [if_neg hne] at hdaemon
        cases hdaemon
      simp only [List.append_nil, hnil, ne_eq, not_true_eq_false, false_and, and_false, iff_false,
        not_exists, not_and]
      exact hstart _
    | some b =>
      rw [hrun, Option.map_some] at hdaemon
      split_ifs at hdaemon with hnil
      have hadvertised : b.advertised = readBack text := Option.some_inj.1 hdaemon
      have hjoin := join_inj (a := announced new.policy new.delegations)
        (fun x => printed_of_mem_announced) hread
      dsimp only
      rw [hadvertised]
      by_cases hsame : announced new.policy new.delegations = readBack text
      · rw [if_pos (hjoin.2 hsame), List.append_nil]
        refine ⟨fun ⟨x, hx, hop⟩ => absurd hop (hstart _ x hx), fun h => absurd hsame h.2.2⟩
      · rw [if_neg (mt hjoin.1 hsame)]
        refine ⟨fun _ => ⟨hresolvable, hnil, hsame⟩, fun _ => ?_⟩
        exact ⟨_, List.mem_append_right _ (List.mem_singleton.2 rfl), rfl⟩
  · rw [if_neg hresolvable]
    simp [hresolvable]

/-- Where no delegation resolves, nothing is announced. -/
theorem announced_eq_nil {p : RaPolicy} {delegations : List Delegation}
    (h : ¬resolvable delegations p = true) : announced p delegations = [] := by
  simp only [resolvable, Bool.or_eq_true, not_or, Bool.not_eq_true, Bool.not_eq_false',
    List.isEmpty_iff, List.any_eq_false] at h
  obtain ⟨hstatic, hrefs⟩ := h
  unfold announced
  rw [hstatic, List.map_nil, List.append_nil, List.map_eq_nil_iff, List.filterMap_eq_nil_iff]
  intro ref href
  have hwaits := hrefs ref href
  unfold prefixOf
  cases hfind : delegations.find? fun x => x.interface = ref.source with
  | none => rfl
  | some delegation =>
    rw [hfind] at hwaits
    rw [Option.bind_some]
    split_ifs with hindex
    · rfl
    · have hshort : delegation.prefixes.length ≤ ref.index.toNat := by
        by_contra hlt
        rw [Option.any_some, decide_eq_false_iff_not] at hwaits
        omega
      rw [List.getElem?_eq_none hshort, Option.bind_none]

end Plan

/-- **A changed advertisement is noticed where prefixes that were read changed.** With radvd
running from the file of a setting, planning another one (or the same) reloads it exactly where its
file differs, if and only if : of the same file, all its prefixes fit the reader or none does, or
the file is too large to be read; of another one, the file is read, some prefix of it fits, the new
policy has something to wait for no longer, and its prefixes are not those read. -/
theorem advertisement_noticed (link : Link) (old new : Setting) (seen : List ObservedBackend)
    (files : String → Option Text) (restarts : String → ℕ) (text newText : Text)
    (hrunning : ∃ b ∈ seen, b.kind = .routerAdvert ∧ b.running = true ∧ b.interface = link.name)
    (hfile : files link.name = some text) (htext : old.text link = some text)
    (hnew : new.text link = some newText) :
    (Reloads (planAdvertise ⟨new.delegations, canonicalize (observeAdvertised files seen), restarts⟩
        link.name (some new.policy)) link.name ↔ newText ≠ text) ↔
      (new.shown = old.shown →
        readMax ≤ text.length ∨ (∀ x ∈ old.prefixes, fits x = false) ∨
          ∀ x ∈ old.prefixes, fits x = true) ∧
      (new.shown ≠ old.shown →
        text.length < readMax ∧ (∃ x ∈ old.prefixes, fits x = true) ∧
          resolvable new.delegations new.policy = true ∧ new.prefixes ≠ old.readable) := by
  have hread : readBack text = if text.length < readMax then old.readable else [] := by
    rw [readBack, Setting.prefixesOf_text htext]
  have hprinted : ∀ x ∈ readBack text, Printed x := by
    rw [hread]
    split_ifs
    · exact fun x hx => printed_of_mem_announced (List.mem_of_mem_filter hx)
    · simp
  have hnone : old.readable = [] ↔ ∀ x ∈ old.prefixes, fits x = false := by
    unfold Setting.readable
    rw [List.filter_eq_nil_iff]
    simp
  have hall : old.prefixes = old.readable ↔ ∀ x ∈ old.prefixes, fits x = true := by
    unfold Setting.readable
    rw [eq_comm, List.filter_eq_self]
  have hsome : (∃ x ∈ old.prefixes, fits x = true) ↔ old.readable ≠ [] := by
    rw [Ne, hnone]
    simp
  have hdiffer : newText ≠ text ↔ ¬new.shown = old.shown := (Setting.text_inj hnew htext).not
  rw [reloads_iff hfile hrunning hprinted, hdiffer, hsome, hread]
  by_cases hsame : new.shown = old.shown
  · have hprefixes : new.prefixes = old.prefixes := congrArg Shown.prefixes hsame
    have hwaiting : ¬resolvable new.delegations new.policy = true → old.prefixes = [] := by
      intro h
      rw [← hprefixes]
      exact announced_eq_nil h
    simp only [hsame, hprefixes, not_true_eq_false, iff_false, not_and, not_not, ne_eq,
      forall_const, IsEmpty.forall_iff, and_true, ← hnone, ← hall]
    by_cases hsize : text.length < readMax
    · simp only [if_pos hsize, not_le.2 hsize, false_or]
      constructor
      · intro h
        by_cases hresolvable : resolvable new.delegations new.policy = true
        · by_cases hnil : old.readable = []
          · exact .inl hnil
          · exact .inr (h hresolvable hnil)
        · rw [Setting.readable, hwaiting hresolvable]
          exact .inl rfl
      · rintro (hnil | hfull) - hne
        · exact absurd hnil hne
        · exact hfull
    · simp only [if_neg hsize, not_lt.1 hsize, true_or, not_true_eq_false, IsEmpty.forall_iff,
        implies_true]
  · simp only [hsame, not_false_eq_true, iff_true, IsEmpty.forall_iff, true_and, ne_eq,
      forall_const]
    by_cases hsize : text.length < readMax
    · simp only [hsize, true_and, if_true]
      exact and_left_comm
    · simp [hsize]

/-- An interface, with what the ISP delegated to another one announced on it. -/
def lan : Link := ⟨"lan0", by simp [isSpace]⟩

/-- The setting of a delegated block, with the managed flag on or off. -/
def leased (block : String) (managed : Bool) : Setting where
  policy := { prefixes := [⟨"wan0", 0, 0⟩], managed := managed }
  delegations := [⟨"wan0", [block]⟩]
  dns := none

def leasedText (block : String) (managed : Bool) : Text := ((leased block managed).text lan).getD []

/-- What is planned for a setting, with radvd running from the file of `2001:db8::/56`. -/
def planFor (new : Setting) : List Planned × List String :=
  planAdvertise ⟨new.delegations, canonicalize (observeAdvertised
    (fun _ => some (leasedText "2001:db8::/56" false)) [⟨.routerAdvert, "lan0", true⟩]), fun _ => 0⟩
    lan.name (some new.policy)

/-- Another delegated block is announced. -/
theorem renumbering_noticed :
    Reloads (planFor (leased "2001:db8:1::/56" false)) lan.name ↔
      leasedText "2001:db8:1::/56" false ≠ leasedText "2001:db8::/56" false :=
  (advertisement_noticed lan (leased "2001:db8::/56" false) (leased "2001:db8:1::/56" false)
    [⟨.routerAdvert, "lan0", true⟩] (fun _ => some (leasedText "2001:db8::/56" false)) (fun _ => 0)
    (leasedText "2001:db8::/56" false) (leasedText "2001:db8:1::/56" false)
    ⟨_, List.mem_singleton.2 rfl, rfl, rfl, rfl⟩ rfl (by decide +kernel) (by decide +kernel)).2
    ⟨fun h => absurd h (by decide +kernel), fun _ => by decide +kernel⟩

/-- The managed flag turned on changes the file, and reloads nothing. -/
theorem managed_flag_unnoticed :
    (leased "2001:db8::/56" true).text lan ≠ (leased "2001:db8::/56" false).text lan ∧
      (leased "2001:db8::/56" false).text lan = some (leasedText "2001:db8::/56" false) ∧
      ¬Reloads (planFor (leased "2001:db8::/56" true)) lan.name := by
  refine ⟨by decide +kernel, by decide +kernel, ?_⟩
  unfold Reloads
  decide +kernel

end Netcfgd.Advertise
