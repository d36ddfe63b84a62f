import Netcfgd.Parser
import Netcfgd.Separated

/-!
# The shell text of a hook

`parse_hook` of `src/compile/parse.c` steps out of the tokens behind the brace of a hook, and
`ncfg_lexer_hook_body` reads its body line by line. The parser has looked one token ahead by then :
a newline is the end of the brace's line, but any other token is thrown away with its bytes.

A body is what stands before the first line that is only a brace (`BodyOf`). `hooks_faithful_iff`
says when each hook of an accepted file has the body that starts below its brace : exactly where
nothing but blanks and a comment follow the brace on its line.
-/

namespace Netcfgd.Parse

open Netcfgd.Json (ascii asciis asciis_ofList)
open Netcfgd.Separated (append_sep_inj)

/-- A body is the lines before the first one that is only a brace. -/
inductive BodyOf : Bytes → Bytes → Prop
  | closed (line post : Bytes) (hline : 10 ∉ line) (h : isClosingLine (line ++ [10]) = true) :
    BodyOf (line ++ 10 :: post) []
  | last (line : Bytes) (hline : 10 ∉ line) (h : isClosingLine line = true) : BodyOf line []
  | line (line rest body : Bytes) (hline : 10 ∉ line) (h : isClosingLine (line ++ [10]) = false)
    (hrest : BodyOf rest body) : BodyOf (line ++ 10 :: rest) (line ++ 10 :: body)

/-! ## The cursor -/

theorem Lexer.bump_rest (l : Lexer) : l.bump.rest = l.rest.drop 1 := by
  unfold Lexer.bump
  cases h : l.rest with
  | nil => exact h
  | cons c rest =>
    dsimp only
    split_ifs <;> rfl

theorem Lexer.bump_position (l : Lexer) : l.bump.position = l.position + min 1 l.rest.length := by
  unfold Lexer.bump
  cases h : l.rest with
  | nil => rfl
  | cons c rest =>
    have hmin : min 1 (rest.length + 1) = 1 := by omega
    rw [List.length_cons, hmin]
    dsimp only
    split_ifs <;> rfl

theorem Lexer.advance_rest : ∀ (n : ℕ) (l : Lexer), (l.advance n).rest = l.rest.drop n
  | 0, l => List.drop_zero.symm
  | n + 1, l => by rw [Lexer.advance, advance_rest n, bump_rest, List.drop_drop, Nat.add_comm]

theorem Lexer.advance_position : ∀ (n : ℕ) (l : Lexer),
    (l.advance n).position = l.position + min n l.rest.length
  | 0, l => by rw [Lexer.advance, Nat.zero_min, Nat.add_zero]
  | n + 1, l => by
    rw [Lexer.advance, advance_position n, bump_position, bump_rest, List.length_drop]
    omega

structure At (text : Bytes) (l : Lexer) : Prop where
  rest : l.rest = text.drop l.position
  le : l.position ≤ text.length

theorem At.start (text : Bytes) : At text { rest := text } := ⟨rfl, Nat.zero_le _⟩

theorem At.advance {text : Bytes} {l : Lexer} (h : At text l) (n : ℕ) : At text (l.advance n) := by
  have hlen : l.rest.length = text.length - l.position := by rw [h.rest, List.length_drop]
  have hle := h.le
  refine ⟨?_, ?_⟩
  · rw [Lexer.advance_rest, Lexer.advance_position, h.rest, List.drop_drop]
    rw [h.rest] at hlen
    rcases Nat.lt_or_ge n (text.length - l.position) with hn | hn
    · rw [hlen, min_eq_left hn.le]
    · rw [hlen, min_eq_right hn, List.drop_of_length_le (by omega),
        List.drop_of_length_le (by omega)]
  · rw [Lexer.advance_position]
    omega

def afterTrivia (bytes : Bytes) : Bytes := bytes.drop (trivia bytes)

def afterToken (bytes : Bytes) : Bytes := (afterTrivia bytes).drop (tokenOf (afterTrivia bytes)).2

theorem Lexer.next_rest (l : Lexer) : l.next.2.rest = afterToken l.rest := by
  unfold Lexer.next afterToken afterTrivia
  dsimp only
  rw [← Lexer.advance_rest]
  cases h : tokenOf (l.advance (trivia l.rest)).rest with
  | mk result n => cases result <;> exact Lexer.advance_rest _ _

theorem Lexer.next_at {text : Bytes} {l : Lexer} (h : At text l) : At text l.next.2 := by
  unfold Lexer.next
  dsimp only
  cases tokenOf (l.advance (trivia l.rest)).rest with
  | mk result n => cases result <;> exact (h.advance _).advance n

theorem Lexer.next_ok {text : Bytes} {l l' : Lexer} {t : Token} (h : At text l)
    (hnext : l.next = (.ok t, l')) :
    text.drop t.span.offset = afterTrivia l.rest ∧
      tokenOf (afterTrivia l.rest) = (.ok t.kind, (tokenOf (afterTrivia l.rest)).2) := by
  have hstart := h.advance (trivia l.rest)
  unfold Lexer.next at hnext
  dsimp only at hnext
  unfold afterTrivia
  rw [← Lexer.advance_rest]
  cases htoken : tokenOf (l.advance (trivia l.rest)).rest with
  | mk result n =>
    rw [htoken] at hnext
    cases result with
    | error fault => cases (Prod.mk.inj hnext).1
    | ok kind =>
      obtain rfl := Except.ok.inj (Prod.mk.inj hnext).1
      exact ⟨hstart.rest.symm, rfl⟩

/-! ## The body of a hook -/

theorem bodyOf_hookBodyIn : ∀ {bytes line body : Bytes} {n : ℕ}, 10 ∉ line →
    hookBodyIn line bytes = some (body, n) → BodyOf (line ++ bytes) body
  | [], line, body, n, hline, h => by
    rw [hookBodyIn] at h
    split_ifs at h with hclose
    obtain rfl : [] = body := (Prod.mk.inj (Option.some.inj h)).1
    rw [List.append_nil]
    exact .last line hline hclose.2
  | c :: rest, line, body, n, hline, h => by
    rw [hookBodyIn] at h
    by_cases hc : c = 10
    · subst hc
      rw [if_pos rfl] at h
      by_cases hclose : isClosingLine (line ++ [10]) = true
      · rw [if_pos hclose] at h
        obtain rfl : [] = body := (Prod.mk.inj (Option.some.inj h)).1
        exact .closed line rest hline hclose
      · rw [if_neg hclose] at h
        obtain ⟨⟨read, m⟩, hread, heq⟩ := Option.map_eq_some_iff.1 h
        obtain rfl : line ++ [10] ++ read = body := (Prod.mk.inj heq).1
        rw [List.append_assoc]
        refine .line line rest read hline (Bool.eq_false_iff.2 hclose) ?_
        exact bodyOf_hookBodyIn List.not_mem_nil hread
    · rw [if_neg hc] at h
      have hnext : 10 ∉ line ++ [c] := by
        rw [List.mem_append, List.mem_singleton]
        rintro (h | h)
        · exact hline h
        · exact hc h.symm
      have := bodyOf_hookBodyIn hnext h
      rwa [List.append_assoc] at this

theorem BodyOf.unique {bytes body : Bytes} (h : BodyOf bytes body) :
    ∀ {body' : Bytes}, BodyOf bytes body' → body = body' := by
  induction h with
  | closed line post hline hclose =>
    intro body' h'
    generalize hbytes : line ++ 10 :: post = bytes at h'
    cases h' with
    | closed => rfl
    | last => rfl
    | line line' rest body' hline' hopen =>
      obtain ⟨rfl, -⟩ := append_sep_inj hline hline' hbytes
      rw [hclose] at hopen
      cases hopen
  | last line hline hclose =>
    intro body' h'
    cases h' with
    | closed => rfl
    | last => rfl
    | line line' rest body' hline' hopen =>
      exact absurd (List.mem_append_right _ List.mem_cons_self) hline
  | line line rest body hline hopen hrest ih =>
    intro body' h'
    generalize hbytes : line ++ 10 :: rest = bytes at h'
    cases h' with
    | closed line' post hline' hclose =>
      obtain ⟨rfl, -⟩ := append_sep_inj hline hline' hbytes
      rw [hclose] at hopen
      cases hopen
    | last line' hline' =>
      rw [← hbytes] at hline'
      exact absurd (List.mem_append_right _ List.mem_cons_self) hline'
    | line line' rest' body' hline' hopen' hrest' =>
      obtain ⟨rfl, rfl⟩ := append_sep_inj hline hline' hbytes
      rw [ih hrest']

/-! ## Where a hook stands -/

def nextToken (bytes : Bytes) : Option (TokenKind × Bytes) :=
  match (tokenOf (afterTrivia bytes)).1 with
  | .ok kind => some (kind, afterToken bytes)
  | .error _ => none

/-- What comes after the brace of a hook, whose keyword the bytes start with. -/
def afterBrace (bytes : Bytes) : Option Bytes :=
  match tokenOf bytes with
  | (.ok (.ident phase), n) =>
    let named := if phase = asciis "on" then
        match nextToken (bytes.drop n) with
        | some (.ident _, rest) => some rest
        | _ => none
      else some (bytes.drop n)
    named.bind fun rest =>
      match nextToken rest with
      | some (.lbrace, rest) => some rest
      | _ => none
  | _ => none

/-- The body of a hook of the tree is what stands below the token after its brace. -/
def ReadFrom (text : Bytes) (h : Hook) : Prop :=
  ∃ rest, afterBrace (text.drop h.span.offset) = some rest ∧ BodyOf (afterToken rest) h.body

mutual

def Item.hooks : Item → List Hook
  | .block _ _ _ items _ => hooksIn items
  | .hook h => [h]
  | .assignment _ _ _ => []
  | .incl _ _ => []

/-- The hooks of a file, in order. -/
def hooksIn : List Item → List Hook
  | [] => []
  | i :: items => i.hooks ++ hooksIn items

end

theorem hooksIn_append (items items' : List Item) :
    hooksIn (items ++ items') = hooksIn items ++ hooksIn items' := by
  induction items with
  | nil => rfl
  | cons i items ih => rw [List.cons_append, hooksIn, hooksIn, ih, List.append_assoc]

theorem hooksIn_singleton (i : Item) : hooksIn [i] = i.hooks := by
  rw [hooksIn, hooksIn, List.append_nil]

/-! ## The parser keeps its place -/

/-- The cursor is over the text, and stands behind the token looked ahead at. -/
structure Parser.Sound (text : Bytes) (p : Parser) : Prop where
  lexer : At text p.lexer
  ahead : ∀ t ∈ p.lookahead, t.kind ≠ .eof →
    ∃ n, tokenOf (text.drop t.span.offset) = (.ok t.kind, n) ∧
      p.lexer.rest = (text.drop t.span.offset).drop n

section Sound

variable {text : Bytes} {p : Parser}

theorem Parser.Sound.storeDiag (h : p.Sound text) (span : Span) (message : Bytes) :
    (p.storeDiag span message).Sound text := ⟨h.lexer, h.ahead⟩

theorem Parser.Sound.discardLookahead (h : p.Sound text) : p.discardLookahead.Sound text :=
  ⟨h.lexer, fun _ ht => by cases ht⟩

theorem Parser.pull_spec (h : At text p.lexer) :
    At text p.pull.2.lexer ∧ p.pull.2.lexer.rest = afterToken p.lexer.rest ∧
      p.pull.2.lookahead = p.lookahead ∧
      (p.pull.1.kind ≠ .eof → text.drop p.pull.1.span.offset = afterTrivia p.lexer.rest ∧
        tokenOf (afterTrivia p.lexer.rest) =
          (.ok p.pull.1.kind, (tokenOf (afterTrivia p.lexer.rest)).2)) := by
  have hat := Lexer.next_at h
  have hrest := Lexer.next_rest p.lexer
  unfold Parser.pull
  cases hnext : p.lexer.next with
  | mk result l =>
    rw [hnext] at hat hrest
    cases result with
    | ok t => exact ⟨hat, hrest, rfl, fun _ => Lexer.next_ok h hnext⟩
    | error fault => exact ⟨hat, hrest, rfl, fun hne => absurd rfl hne⟩

theorem Parser.Sound.take (h : p.Sound text) :
    p.take.2.Sound text ∧ p.take.2.lookahead = none ∧
      (p.take.1.kind ≠ .eof →
        ∃ n, tokenOf (text.drop p.take.1.span.offset) = (.ok p.take.1.kind, n) ∧
          p.take.2.lexer.rest = (text.drop p.take.1.span.offset).drop n) := by
  unfold Parser.take
  cases hahead : p.lookahead with
  | some t => exact ⟨⟨h.lexer, fun _ ht => by cases ht⟩, rfl, h.ahead t hahead⟩
  | none =>
    obtain ⟨hat, hrest, hlook, htoken⟩ := Parser.pull_spec h.lexer
    rw [hahead] at hlook
    refine ⟨⟨hat, fun t ht => ?_⟩, hlook, fun hne => ?_⟩
    · rw [hlook] at ht
      cases ht
    · obtain ⟨hdrop, htok⟩ := htoken hne
      refine ⟨_, hdrop ▸ htok, ?_⟩
      rw [hrest, hdrop]
      rfl

theorem Parser.Sound.drop (h : p.Sound text) : p.drop.Sound text := h.take.1

theorem Parser.Sound.peek (h : p.Sound text) :
    p.peek.2.Sound text ∧ p.peek.2.lookahead = some p.peek.1 := by
  unfold Parser.peek
  cases hahead : p.lookahead with
  | some t => exact ⟨h, hahead⟩
  | none =>
    obtain ⟨hat, hrest, -, htoken⟩ := Parser.pull_spec h.lexer
    refine ⟨⟨hat, fun t ht hne => ?_⟩, rfl⟩
    obtain rfl := Option.some.inj ht
    obtain ⟨hdrop, htok⟩ := htoken hne
    refine ⟨_, hdrop ▸ htok, ?_⟩
    rw [hdrop]
    exact hrest

theorem Parser.Sound.skipIn : ∀ (n : ℕ) {p : Parser}, p.Sound text → (p.skipIn n).Sound text
  | 0, _, h => h
  | n + 1, p, h => by
    rw [Parser.skipIn]
    dsimp only
    split_ifs
    · exact skipIn n h.peek.1.drop
    · exact h.peek.1

theorem Parser.Sound.skipTerminators (h : p.Sound text) : p.skipTerminators.Sound text :=
  Parser.Sound.skipIn _ h

theorem Parser.Sound.recoverIn : ∀ (n : ℕ) {p : Parser}, p.Sound text →
    (p.recoverIn n).2.Sound text
  | 0, _, h => h
  | n + 1, p, h => by
    rw [Parser.recoverIn]
    dsimp only
    split_ifs
    · exact h.take.1
    · exact h.take.1
    · exact recoverIn n h.take.1

theorem Parser.Sound.expectTerminator (h : p.Sound text) : p.expectTerminator.Sound text := by
  unfold Parser.expectTerminator
  dsimp only
  split_ifs
  · exact h.peek.1.drop
  · exact h.peek.1
  · exact h.peek.1.storeDiag _ _

end Sound

/-- A parser that keeps its place, and gives what has a property. -/
def Keeps {α : Type*} (text : Bytes) (P : α → Prop) (f : Parser → Option α × Parser) : Prop :=
  ∀ p : Parser, p.Sound text → (f p).2.Sound text ∧ ∀ a ∈ (f p).1, P a

section Keeps

variable {text : Bytes}

theorem keeps_parseListEntries {entry : Parser → Option Value × Parser} {span : Span}
    (hentry : Keeps text (fun _ => True) entry) : ∀ (n : ℕ) (entries : List Value),
      Keeps text (fun _ => True) (parseListEntries entry span n entries)
  | 0, _, p, h => ⟨h, fun _ _ => trivial⟩
  | n + 1, entries, p, h => by
    refine ⟨?_, fun _ _ => trivial⟩
    have hpeek := h.skipTerminators.peek.1
    rw [parseListEntries]
    dsimp only
    split_ifs
    · exact hpeek.drop
    · have hnext := (hentry _ hpeek).1
      cases hread : entry p.skipTerminators.peek.2 with
      | mk result q =>
        rw [hread] at hnext
        cases result with
        | none => exact hnext
        | some v =>
          dsimp only
          split_ifs
          · exact (keeps_parseListEntries hentry n _ _ hnext.skipTerminators.peek.1.drop).1
          · exact hnext.skipTerminators.peek.1.drop
          · exact hnext.skipTerminators.peek.1.storeDiag _ _

theorem keeps_parseValueWith {list : Span → Parser → Option Value × Parser}
    (hlist : ∀ span, Keeps text (fun _ => True) (list span)) :
    Keeps text (fun _ => True) (parseValueWith list) := by
  intro p h
  refine ⟨?_, fun _ _ => trivial⟩
  have htake := h.take.1
  unfold parseValueWith
  dsimp only
  split
  · exact htake
  · exact htake
  · exact htake
  · exact (hlist _ _ htake).1
  · exact htake.storeDiag _ _

theorem keeps_parseValue : ∀ room : ℕ, Keeps text (fun _ => True) (parseValue room)
  | 0 => keeps_parseValueWith fun _ _ h => ⟨h.storeDiag _ _, fun _ _ => trivial⟩
  | room + 1 => keeps_parseValueWith fun _ _ h =>
    keeps_parseListEntries (keeps_parseValue room) _ _ _ h

def HooksRead (text : Bytes) (i : Item) : Prop := ∀ h ∈ i.hooks, ReadFrom text h

theorem keeps_parseInclude : Keeps text (HooksRead text) parseInclude := by
  intro p h
  have htake := h.take.1.take.1
  unfold parseInclude
  dsimp only
  split
  · refine ⟨htake.expectTerminator, fun i hi => ?_⟩
    obtain rfl := Option.some.inj hi
    exact fun _ hhook => absurd hhook List.not_mem_nil
  · exact ⟨htake.storeDiag _ _, fun _ hi => by cases hi⟩

theorem nextToken_of_take {p : Parser} (h : p.Sound text) (hahead : p.lookahead = none)
    (hne : p.take.1.kind ≠ .eof) :
    nextToken p.lexer.rest = some (p.take.1.kind, p.take.2.lexer.rest) := by
  obtain ⟨-, hrest, -, htoken⟩ := Parser.pull_spec h.lexer
  unfold Parser.take at hne ⊢
  rw [hahead] at hne ⊢
  dsimp only at hne ⊢
  unfold nextToken
  rw [(htoken hne).2, hrest]

theorem hookBody_spec {l : Lexer} (h : At text l) :
    At text l.hookBody.2 ∧ ∀ body, l.hookBody.1 = .ok body → BodyOf l.rest body := by
  unfold Lexer.hookBody
  cases hread : hookBodyIn [] l.rest with
  | none => exact ⟨h.advance _, fun _ heq => by cases heq⟩
  | some read =>
    obtain ⟨body, n⟩ := read
    dsimp only
    split_ifs
    · exact ⟨h.advance _, fun _ heq => by cases heq⟩
    · refine ⟨h.advance _, fun body' heq => ?_⟩
      obtain rfl := Except.ok.inj heq
      exact bodyOf_hookBodyIn List.not_mem_nil hread

theorem rest_discard {p : Parser} (h : p.Sound text) (hahead : p.lookahead = none) :
    ((if p.peek.1.kind = .terminator then p.peek.2.drop
        else p.peek.2).discardLookahead).Sound text ∧
      ((if p.peek.1.kind = .terminator then p.peek.2.drop
        else p.peek.2).discardLookahead).lexer.rest = afterToken p.lexer.rest := by
  have hpeek := h.peek
  have hrest : p.peek.2.lexer.rest = afterToken p.lexer.rest := by
    unfold Parser.peek
    rw [hahead]
    exact (Parser.pull_spec h.lexer).2.1
  split_ifs
  · refine ⟨hpeek.1.drop.discardLookahead, ?_⟩
    rw [← hrest]
    unfold Parser.discardLookahead Parser.drop Parser.take
    rw [hpeek.2]
  · exact ⟨hpeek.1.discardLookahead, hrest⟩

theorem keeps_parseHookBody {p : Parser} {phase : Bytes} {span : Span} (h : p.Sound text)
    (hahead : p.lookahead = none)
    (hbrace : ∀ rest, nextToken p.lexer.rest = some (.lbrace, rest) →
      afterBrace (text.drop span.offset) = some rest) :
    (parseHookBody phase span p).2.Sound text ∧
      ∀ i ∈ (parseHookBody phase span p).1, HooksRead text i := by
  obtain ⟨htake, hnone, -⟩ := h.take
  unfold parseHookBody
  dsimp only
  by_cases hkind : p.take.1.kind = .lbrace
  · have hnext := nextToken_of_take h hahead (by rw [hkind]; decide)
    rw [hkind] at hnext
    rw [if_neg (not_not.2 hkind)]
    obtain ⟨hsound, hrest⟩ := rest_discard htake hnone
    have hlook : ((if p.take.2.peek.1.kind = .terminator then p.take.2.peek.2.drop
      else p.take.2.peek.2).discardLookahead).lookahead = none := rfl
    generalize (if p.take.2.peek.1.kind = .terminator then p.take.2.peek.2.drop
      else p.take.2.peek.2).discardLookahead = q at hsound hrest hlook ⊢
    obtain ⟨hat, hbody⟩ := hookBody_spec hsound.lexer
    cases hread : q.lexer.hookBody with
    | mk result l =>
      rw [hread] at hat hbody
      have hsound' : ({ q with lexer := l } : Parser).Sound text :=
        ⟨hat, fun t ht => by rw [hlook] at ht; cases ht⟩
      cases result with
      | error fault => exact ⟨hsound'.storeDiag _ _, fun _ hi => by cases hi⟩
      | ok body =>
        refine ⟨hsound', fun i hi => ?_⟩
        obtain rfl := Option.some.inj hi
        intro hook hhook
        rw [Item.hooks, List.mem_singleton] at hhook
        subst hhook
        refine ⟨_, hbrace _ hnext, ?_⟩
        rw [← hrest]
        exact hbody body rfl
  · rw [if_pos hkind]
    exact ⟨htake.storeDiag _ _, fun _ hi => by cases hi⟩

theorem keeps_parseHook : Keeps text (HooksRead text) parseHook := by
  intro p h
  obtain ⟨htake, hnone, htoken⟩ := h.take
  unfold parseHook
  dsimp only
  cases hkind : p.take.1.kind with
  | ident phase =>
    obtain ⟨n, htok, hrest⟩ := htoken (by rw [hkind]; simp)
    rw [hkind] at htok
    dsimp only
    by_cases hon : phase = asciis "on"
    · rw [if_pos hon]
      obtain ⟨hevent, hnone', -⟩ := htake.take
      cases hname : p.take.2.take.1.kind with
      | ident name =>
        have hnext := nextToken_of_take htake hnone (by rw [hname]; simp)
        rw [hname, hrest] at hnext
        refine keeps_parseHookBody hevent hnone' fun rest hlbrace => ?_
        unfold afterBrace
        rw [htok]
        dsimp only
        rw [if_pos hon, hnext, Option.bind_some, hlbrace]
      | _ => exact ⟨hevent.storeDiag _ _, fun _ hi => by cases hi⟩
    · rw [if_neg hon]
      refine keeps_parseHookBody htake hnone fun rest hlbrace => ?_
      unfold afterBrace
      rw [htok]
      dsimp only
      rw [if_neg hon, Option.bind_some, ← hrest, hlbrace]
  | _ => exact ⟨htake, fun _ hi => by cases hi⟩

theorem keeps_parseBlockItems {item : Parser → Option Item × Parser} {b : BlockHead}
    (hitem : Keeps text (HooksRead text) item) : ∀ (n : ℕ) {items : List Item},
      (∀ h ∈ hooksIn items, ReadFrom text h) →
      Keeps text (HooksRead text) (parseBlockItems item b n items)
  | 0, _, _, p, h => ⟨h, fun _ hi => by cases hi⟩
  | n + 1, items, hitems, p, h => by
    have hpeek := h.skipTerminators.peek.1
    rw [parseBlockItems]
    dsimp only
    split_ifs
    · refine ⟨hpeek.drop.expectTerminator, fun i hi => ?_⟩
      obtain rfl := Option.some.inj hi
      unfold HooksRead
      rw [Item.hooks]
      exact hitems
    · exact ⟨hpeek.storeDiag _ _, fun _ hi => by cases hi⟩
    · obtain ⟨hnext, hchild⟩ := hitem _ hpeek
      cases hread : item p.skipTerminators.peek.2 with
      | mk result q =>
        rw [hread] at hnext hchild
        cases result with
        | some child =>
          refine keeps_parseBlockItems hitem n ?_ q hnext
          rw [hooksIn_append, hooksIn_singleton, List.forall_mem_append]
          exact ⟨hitems, hchild child rfl⟩
        | none =>
          dsimp only
          have hrecover := Parser.Sound.recoverIn (q.size + 1) hnext
          change q.recover.2.Sound text at hrecover
          cases hskip : q.recover with
          | mk more r =>
            rw [hskip] at hrecover
            cases more with
            | false => exact ⟨hrecover, fun _ hi => by cases hi⟩
            | true => exact keeps_parseBlockItems hitem n hitems r hrecover

section Blocks

variable {body : BlockHead → Span → Parser → Option Item × Parser}

theorem keeps_parseBraced (hbody : ∀ b span, Keeps text (HooksRead text) (body b span))
    (b : BlockHead) : Keeps text (HooksRead text) (parseBraced body b) := by
  intro p h
  unfold parseBraced
  dsimp only
  split_ifs
  · exact ⟨h.take.1.storeDiag _ _, fun _ hi => by cases hi⟩
  · exact hbody _ _ _ h.take.1

theorem keeps_parseBlockAfterHead (hbody : ∀ b span, Keeps text (HooksRead text) (body b span))
    (head : Bytes) (span : Span) :
    Keeps text (HooksRead text) (parseBlockAfterHead body head span) := by
  intro p h
  have hpeek := h.peek.1
  unfold parseBlockAfterHead
  dsimp only
  split
  · exact keeps_parseBraced hbody _ _ hpeek.drop
  · exact keeps_parseBraced hbody _ _ hpeek.drop
  · exact keeps_parseBraced hbody _ _ hpeek

theorem keeps_parseOverride (hbody : ∀ b span, Keeps text (HooksRead text) (body b span)) :
    Keeps text (HooksRead text) (parseOverride body) := by
  intro p h
  have htake := h.take.1
  unfold parseOverride
  dsimp only
  split
  · rename_i head _
    obtain ⟨hsound, hread⟩ := keeps_parseBlockAfterHead hbody head p.take.1.span _ htake
    split
    · rename_i heq
      rw [heq] at hsound hread
      refine ⟨hsound, fun i hi => ?_⟩
      obtain rfl := Option.some.inj hi
      have hitems := hread _ rfl
      unfold HooksRead at hitems ⊢
      rw [Item.hooks] at hitems ⊢
      exact hitems
    · exact ⟨hsound, hread⟩
  · exact ⟨htake.storeDiag _ _, fun _ hi => by cases hi⟩

theorem keeps_parseKeyed (hbody : ∀ b span, Keeps text (HooksRead text) (body b span)) (room : ℕ)
    (key : Bytes) (span : Span) : Keeps text (HooksRead text) (parseKeyed room body key span) := by
  intro p h
  have hpeek := h.peek.1
  unfold parseKeyed
  dsimp only
  split
  · have hvalue := (keeps_parseValue room _ hpeek.drop).1
    split
    · rename_i heq
      rw [heq] at hvalue
      exact ⟨hvalue, fun _ hi => by cases hi⟩
    · rename_i heq
      rw [heq] at hvalue
      refine ⟨hvalue.expectTerminator, fun i hi => ?_⟩
      obtain rfl := Option.some.inj hi
      unfold HooksRead
      rw [Item.hooks]
      exact fun _ hhook => absurd hhook List.not_mem_nil
  · exact keeps_parseBlockAfterHead hbody _ _ _ hpeek
  · exact keeps_parseBlockAfterHead hbody _ _ _ hpeek
  · exact keeps_parseBlockAfterHead hbody _ _ _ hpeek
  · exact ⟨hpeek.storeDiag _ _, fun _ hi => by cases hi⟩

theorem keeps_parseItemWith (hbody : ∀ b span, Keeps text (HooksRead text) (body b span))
    (room : ℕ) : Keeps text (HooksRead text) (parseItemWith room body) := by
  intro p h
  have hpeek := h.peek.1
  unfold parseItemWith
  dsimp only
  split
  · split_ifs
    · exact keeps_parseInclude _ hpeek
    · exact keeps_parseOverride hbody _ hpeek.drop
    · exact keeps_parseHook _ hpeek
    · exact keeps_parseKeyed hbody _ _ _ _ hpeek.drop
  · exact ⟨hpeek.storeDiag _ _, fun _ hi => by cases hi⟩

end Blocks

theorem keeps_parseItem : ∀ room : ℕ, Keeps text (HooksRead text) (parseItem room)
  | 0 => keeps_parseItemWith (fun _ _ _ h => ⟨h.storeDiag _ _, fun _ hi => by cases hi⟩) 0
  | room + 1 =>
    keeps_parseItemWith (fun _ _ _ h => keeps_parseBlockItems (keeps_parseItem room) _
      (fun _ hhook => absurd hhook List.not_mem_nil) _ h) (room + 1)

theorem hooksRead_parseFileIn : ∀ (n : ℕ) {items : List Item} {p : Parser}, p.Sound text →
    (∀ h ∈ hooksIn items, ReadFrom text h) →
    ∀ h ∈ hooksIn (parseFileIn n items p).1, ReadFrom text h
  | 0, _, _, _, hitems => hitems
  | n + 1, items, p, h, hitems => by
    have hpeek := h.skipTerminators.peek.1
    rw [parseFileIn]
    dsimp only
    split_ifs
    · exact hitems
    · obtain ⟨hnext, hchild⟩ := keeps_parseItem maxNestingDepth _ hpeek
      cases hread : parseItem maxNestingDepth p.skipTerminators.peek.2 with
      | mk result q =>
        rw [hread] at hnext hchild
        cases result with
        | some child =>
          refine hooksRead_parseFileIn n hnext ?_
          rw [hooksIn_append, hooksIn_singleton, List.forall_mem_append]
          exact ⟨hitems, hchild child rfl⟩
        | none =>
          dsimp only
          have hrecover := Parser.Sound.recoverIn (q.size + 1) hnext
          change q.recover.2.Sound text at hrecover
          cases hskip : q.recover with
          | mk more r =>
            rw [hskip] at hrecover
            cases more with
            | false => exact hitems
            | true => exact hooksRead_parseFileIn n hrecover hitems

end Keeps

/-- Every hook of a parsed file is read from its text. -/
theorem readFrom_of_parse {text : Bytes} {items : List Item} (h : parse text = .ok items) :
    ∀ hook ∈ hooksIn items, ReadFrom text hook := by
  have hstart : ({ lexer := { rest := text } } : Parser).Sound text :=
    ⟨At.start text, fun _ ht => by cases ht⟩
  have hfile := @hooksRead_parseFileIn text (text.length + 1) [] _ hstart
    fun _ hhook => absurd hhook List.not_mem_nil
  unfold parse at h
  dsimp only at h
  split_ifs at h
  obtain rfl := Except.ok.inj h
  exact hfile

/-! ## The line of the brace -/

def BlankOrComment (after : Bytes) : Prop :=
  10 ∉ after ∧ ∃ blanks comment, after = blanks ++ comment ∧
    (∀ c ∈ blanks, c = 32 ∨ c = 9 ∨ c = 13) ∧ (comment = [] ∨ comment.head? = some (ascii '#'))

def LineEnd (after : Bytes) : Prop :=
  BlankOrComment after ∨ ∃ blanks rest, after = blanks ++ ascii ';' :: rest ∧
    (∀ c ∈ blanks, c = 32 ∨ c = 9 ∨ c = 13) ∧ BlankOrComment rest

/-- The body of a hook is what stands below the line of its brace, and nothing stands on that line
behind the brace that is not blank, a comment or one terminator. -/
def Faithful (text : Bytes) (h : Hook) : Prop :=
  ∃ after rest, afterBrace (text.drop h.span.offset) = some (after ++ 10 :: rest) ∧
    LineEnd after ∧ BodyOf rest h.body

/-- Nothing but blanks and a comment stands behind the brace of a hook on its line. -/
def BlankAfterBrace (text : Bytes) (h : Hook) : Prop :=
  ∃ after rest, afterBrace (text.drop h.span.offset) = some (after ++ 10 :: rest) ∧
    BlankOrComment after

section Line

variable {blanks after rest : Bytes}

theorem triviaIn_blanks (h : ∀ c ∈ blanks, c = 32 ∨ c = 9 ∨ c = 13) :
    triviaIn false (blanks ++ rest) = blanks.length + triviaIn false rest := by
  induction blanks with
  | nil => rw [List.nil_append, List.length_nil, Nat.zero_add]
  | cons c blanks ih =>
    rw [List.forall_mem_cons] at h
    rw [List.cons_append, triviaIn, if_neg (by decide), if_pos h.1, ih h.2, List.length_cons]
    omega

theorem triviaIn_comment (h : 10 ∉ after) : triviaIn true (after ++ 10 :: rest) = after.length := by
  induction after with
  | nil => rfl
  | cons c after ih =>
    have hc : c ≠ 10 := fun heq => h (heq ▸ List.mem_cons_self)
    rw [List.cons_append, triviaIn, if_pos rfl, if_neg hc,
      ih fun hmem => h (List.mem_cons_of_mem c hmem), List.length_cons]

theorem BlankOrComment.trivia_eq (h : BlankOrComment after) :
    trivia (after ++ 10 :: rest) = after.length := by
  obtain ⟨hnl, blanks, comment, rfl, hblanks, hcomment⟩ := h
  unfold trivia
  rw [List.append_assoc, triviaIn_blanks hblanks, List.length_append]
  congr 1
  cases comment with
  | nil => rfl
  | cons c comment =>
    rcases hcomment with hcomment | hcomment
    · cases hcomment
    · obtain rfl := Option.some.inj hcomment
      have hrest : 10 ∉ comment := fun hmem =>
        hnl (List.mem_append_right _ (List.mem_cons_of_mem _ hmem))
      rw [List.cons_append, triviaIn, if_neg (by decide), if_neg (by decide), if_pos rfl,
        triviaIn_comment hrest, List.length_cons]

theorem BlankOrComment.afterToken_eq (h : BlankOrComment after) :
    afterToken (after ++ 10 :: rest) = rest := by
  unfold afterToken afterTrivia
  rw [h.trivia_eq, List.drop_left]
  rfl

theorem afterToken_semicolon (h : ∀ c ∈ blanks, c = 32 ∨ c = 9 ∨ c = 13) :
    afterToken (blanks ++ ascii ';' :: rest) = rest := by
  have htrivia : trivia (blanks ++ ascii ';' :: rest) = blanks.length := triviaIn_blanks h
  unfold afterToken afterTrivia
  rw [htrivia, List.drop_left]
  rfl

theorem BlankOrComment.not_closing (h : BlankOrComment after) :
    isClosingLine (after ++ [10]) = false := by
  obtain ⟨-, blanks, comment, rfl, hblanks, hcomment⟩ := h
  have hspace : ∀ c ∈ blanks, isSpace c = true := by
    intro c hc
    rcases hblanks c hc with rfl | rfl | rfl <;> rfl
  unfold isClosingLine
  rw [List.append_assoc, List.dropWhile_append_of_pos hspace]
  cases comment with
  | nil => rfl
  | cons c comment =>
    rcases hcomment with hcomment | hcomment
    · cases hcomment
    · obtain rfl := Option.some.inj hcomment
      rw [List.cons_append, List.dropWhile_cons_of_neg (by decide), decide_eq_false_iff_not]
      intro heq
      have hpre : [125] <+: ascii '#' :: (comment ++ [10]) := by
        rw [← heq, ← List.reverse_suffix, List.reverse_reverse]
        exact List.dropWhile_suffix _
      obtain ⟨tail, htail⟩ := hpre
      exact absurd (List.cons.inj htail).1 (by decide)

end Line

/-- A hook that is read from where it stands has the body below its brace exactly where the rest of
the brace's line is blank or a comment : a semicolon leaves the newline in the body. -/
theorem faithful_iff {text : Bytes} {h : Hook} (hread : ReadFrom text h) :
    Faithful text h ↔ BlankAfterBrace text h := by
  obtain ⟨bytes, hbytes, hbody⟩ := hread
  constructor
  · rintro ⟨after, rest, hbrace, hend, hrest⟩
    refine ⟨after, rest, hbrace, hend.resolve_right ?_⟩
    rintro ⟨blanks, more, rfl, hblanks, hmore⟩
    obtain rfl := Option.some.inj (hbytes.symm.trans hbrace)
    rw [List.append_assoc, List.cons_append, afterToken_semicolon hblanks] at hbody
    have hline := BodyOf.line more rest h.body hmore.1 hmore.not_closing hrest
    have hlength := congrArg List.length (hbody.unique hline)
    rw [List.length_append, List.length_cons] at hlength
    omega
  · rintro ⟨after, rest, hbrace, hblank⟩
    obtain rfl := Option.some.inj (hbytes.symm.trans hbrace)
    rw [hblank.afterToken_eq] at hbody
    exact ⟨after, rest, hbrace, .inl hblank, hbody⟩

/-- **A hook's body is what is written below its brace, exactly where nothing is written behind the
brace.** For every text that is accepted, each hook of the tree has the lines below the line of its
brace for its body, up to the first that is only a closing brace, if and only if nothing but blanks
and a comment stands behind each brace on its line. -/
theorem hooks_faithful_iff {text : Bytes} {items : List Item} (h : parse text = .ok items) :
    (∀ hook ∈ hooksIn items, Faithful text hook) ↔
      ∀ hook ∈ hooksIn items, BlankAfterBrace text hook :=
  forall₂_congr fun hook hmem => faithful_iff (readFrom_of_parse h hook hmem)

/-- Where the hooks of an accepted text stand, and their bodies. -/
def hookTexts (text : Bytes) : Option (List (ℕ × Bytes)) :=
  (parse text).toOption.map fun items => (hooksIn items).map fun h => (h.span.offset, h.body)

theorem exists_of_hookTexts {text : Bytes} {hooks : List (ℕ × Bytes)}
    (h : hookTexts text = some hooks) :
    ∃ items, parse text = .ok items ∧
      (hooksIn items).map (fun h => (h.span.offset, h.body)) = hooks := by
  unfold hookTexts at h
  cases hparse : parse text with
  | error diags =>
    rw [hparse] at h
    cases h
  | ok items =>
    rw [hparse] at h
    exact ⟨items, rfl, Option.some.inj h⟩

def writtenBelow : Bytes := asciis "up \x7b # on\n  echo hi\n\x7d\n"

/-- Its body is its commands. -/
theorem below_faithful :
    ∃ items, parse writtenBelow = .ok items ∧
      (hooksIn items).map Hook.body = [asciis "  echo hi\n"] ∧
      ((∀ hook ∈ hooksIn items, Faithful writtenBelow hook) ↔
        ∀ hook ∈ hooksIn items, BlankAfterBrace writtenBelow hook) := by
  obtain ⟨items, hparse, hhooks⟩ : ∃ items, parse writtenBelow = .ok items ∧
      (hooksIn items).map (fun h => (h.span.offset, h.body)) = [(0, asciis "  echo hi\n")] := by
    apply exists_of_hookTexts
    unfold writtenBelow
    repeat rw [asciis_ofList]
    decide +kernel
  refine ⟨items, hparse, ?_, hooks_faithful_iff hparse⟩
  simpa using congrArg (List.map Prod.snd) hhooks

def writtenBehind : Bytes := asciis "up \x7b echo hi\n\x7d\n"

/-- The file is accepted, and the first word of the command is gone from the body. -/
theorem behind_loses_word :
    ∃ items, parse writtenBehind = .ok items ∧ ∃ hook ∈ hooksIn items,
      hook.body = asciis " hi\n" ∧ ¬Faithful writtenBehind hook := by
  obtain ⟨items, hparse, hhooks⟩ : ∃ items, parse writtenBehind = .ok items ∧
      (hooksIn items).map (fun h => (h.span.offset, h.body)) = [(0, asciis " hi\n")] := by
    apply exists_of_hookTexts
    unfold writtenBehind
    repeat rw [asciis_ofList]
    decide +kernel
  obtain ⟨hook, hitems, hhook⟩ := List.map_eq_singleton_iff.1 hhooks
  have hmem : hook ∈ hooksIn items := by
    rw [hitems]
    exact List.mem_singleton_self _
  refine ⟨items, hparse, hook, hmem, (Prod.mk.inj hhook).2, fun hfaithful => ?_⟩
  obtain ⟨after, rest, hbrace, hblank⟩ :=
    (faithful_iff (readFrom_of_parse hparse hook hmem)).1 hfaithful
  have hbehind : afterBrace (writtenBehind.drop 0) = some (asciis " echo hi\n\x7d\n") := by
    unfold writtenBehind
    repeat rw [asciis_ofList]
    decide +kernel
  rw [(Prod.mk.inj hhook).1, hbehind] at hbrace
  have hnext : (afterTrivia (after ++ 10 :: rest)).head? = some 10 := by
    unfold afterTrivia
    rw [hblank.trivia_eq, List.drop_left]
    rfl
  rw [← Option.some.inj hbrace, asciis_ofList] at hnext
  revert hnext
  decide +kernel

end Netcfgd.Parse
