import Netcfgd.Separated

/-!
# The lines of a connection

`proto/frame.c` : the bytes of a connection are held until a newline ends a line, and the line that
was handed out stays at the front of what is held until the next call. However a stream is cut into
calls, the lines are its newline-terminated segments, up to the call that breaks the framer
(`framing_independent_of_chunking`).
-/

namespace Netcfgd.Framing

open Netcfgd.Separated

abbrev Bytes := List UInt8

def newline : UInt8 := 10

/-- `NCFG_PROTO_MAX_LINE`, which counts the newline. -/
def maxLine : ℕ := 1024 * 1024

/-- `PENDING_LIMIT`. -/
def pendingLimit : ℕ := maxLine * 2

/-- `ncfg_proto_framer_t`. -/
structure Framer where
  pending : Bytes := []
  handed : ℕ := 0
  broken : Bool := false

def stopped : String := "this connection stopped being the protocol and cannot be read on"

/-- `drop_handed`. -/
def dropHanded (f : Framer) : Framer :=
  { f with pending := f.pending.drop f.handed, handed := 0 }

/-- `ncfg_proto_framer_add`, with why it failed. -/
def framerAdd (f : Framer) (bytes : Bytes) : Framer × Option String :=
  if f.broken then (f, some stopped)
  else
    let f := dropHanded f
    if pendingLimit - f.pending.length < bytes.length then
      ({ f with broken := true },
        some ("more than " ++ toString pendingLimit ++ " bytes are waiting to be framed"))
    else
      let f := { f with pending := f.pending ++ bytes }
      if maxLine ≤ f.pending.length ∧ newline ∉ f.pending then
        ({ f with broken := true },
          some ("a message exceeded " ++ toString maxLine ++ " bytes without a newline"))
      else (f, none)

/-- `ncfg_proto_line_result_t`. -/
inductive LineResult
  | line (bytes : Bytes)
  | incomplete
  | failed (why : String)

/-- `ncfg_proto_framer_next`. -/
def framerNext (f : Framer) : Framer × LineResult :=
  if f.broken then (f, .failed stopped)
  else
    let f := dropHanded f
    if newline ∈ f.pending then
      let line := f.pending.takeWhile (· ≠ newline)
      if maxLine < line.length + 1 then
        ({ f with broken := true },
          .failed ("a message of " ++ toString (line.length + 1) ++ " bytes is past the " ++
            toString maxLine ++ " byte line"))
      else ({ f with handed := line.length + 1 }, .line line)
    else (f, .incomplete)

def drain : ℕ → Framer → Framer × List Bytes
  | 0, f => (f, [])
  | fuel + 1, f =>
    match framerNext f with
    | (f, .line line) => ((drain fuel f).1, line :: (drain fuel f).2)
    | (f, _) => (f, [])

/-- One read of a connection : the bytes are added, and the lines they complete are taken. -/
def feed (s : Framer × List Bytes) (chunk : Bytes) : Framer × List Bytes :=
  match framerAdd s.1 chunk with
  | (f, some _) => (f, s.2)
  | (f, none) => ((drain (f.pending.length + 1) f).1, s.2 ++ (drain (f.pending.length + 1) f).2)

/-- The framer of a connection after some reads, and the lines it handed out. -/
def run (chunks : List Bytes) : Framer × List Bytes := chunks.foldl feed ({}, [])

/-! ## One call -/

/-- What is pending and not handed out. -/
def held (f : Framer) : Bytes := f.pending.drop f.handed

theorem takeWhile_line {p rest : Bytes} (hp : newline ∉ p) :
    (p ++ newline :: rest).takeWhile (· ≠ newline) = p := by
  rw [List.takeWhile_append_of_pos fun c hc => by
    simpa using fun heq : c = newline => hp (heq ▸ hc)]
  simp

theorem framerNext_eq {f : Framer} (hopen : f.broken = false) :
    framerNext f =
      if newline ∈ held f then
        let line := (held f).takeWhile (· ≠ newline)
        if maxLine < line.length + 1 then
          ({ pending := held f, broken := true },
            .failed ("a message of " ++ toString (line.length + 1) ++ " bytes is past the " ++
              toString maxLine ++ " byte line"))
        else ({ pending := held f, handed := line.length + 1 }, .line line)
      else ({ pending := held f }, .incomplete) := by
  obtain ⟨pending, handed, broken⟩ := f
  obtain rfl : broken = false := hopen
  rfl

theorem framerNext_line {f : Framer} {p rest : Bytes} (hopen : f.broken = false)
    (hheld : held f = p ++ newline :: rest) (hp : newline ∉ p) (hshort : p.length < maxLine) :
    framerNext f = ({ pending := p ++ newline :: rest, handed := p.length + 1 }, .line p) := by
  rw [framerNext_eq hopen, hheld, if_pos (by simp)]
  dsimp only
  rw [takeWhile_line hp, if_neg (by omega)]

theorem framerNext_long {f : Framer} {p rest : Bytes} (hopen : f.broken = false)
    (hheld : held f = p ++ newline :: rest) (hp : newline ∉ p) (hlong : maxLine ≤ p.length) :
    ∃ why, framerNext f = ({ pending := p ++ newline :: rest, broken := true }, .failed why) := by
  rw [framerNext_eq hopen, hheld, if_pos (by simp)]
  dsimp only
  rw [takeWhile_line hp, if_pos (by omega)]
  exact ⟨_, rfl⟩

theorem framerNext_open {f : Framer} (hopen : f.broken = false) (hheld : newline ∉ held f) :
    framerNext f = ({ pending := held f }, .incomplete) := by
  rw [framerNext_eq hopen, if_neg hheld]

theorem held_handed (p rest : Bytes) :
    held { pending := p ++ newline :: rest, handed := p.length + 1 } = rest := by
  change (p ++ newline :: rest).drop (p.length + 1) = rest
  rw [← List.drop_drop, List.drop_left]
  rfl

/-! ## A read, and a run of them -/

/-- What the lines of a drained framer are : the segments held, up to the first that is too long,
which breaks it. -/
theorem drain_spec : ∀ {fuel : ℕ} {f : Framer}, f.broken = false → (held f).length < fuel →
    (∀ l ∈ (drain fuel f).2, l.length < maxLine) ∧
      ((∃ l ∈ segments newline (held f), maxLine ≤ l.length) → (drain fuel f).1.broken = true) ∧
      ((drain fuel f).1.broken = false → (drain fuel f).2 = segments newline (held f) ∧
        held (drain fuel f).1 = tail newline (held f))
  | 0, _, _, hfuel => absurd hfuel (Nat.not_lt_zero _)
  | fuel + 1, f, hopen, hfuel => by
    rcases first_cases newline (held f) with hnone | ⟨p, rest, hheld, hp⟩
    · have hdrain : drain (fuel + 1) f = ({ pending := held f }, []) := by
        rw [drain, framerNext_open hopen hnone]
      rw [hdrain, segments_of_not_mem hnone, tail_of_not_mem hnone]
      exact ⟨by simp, by simp, fun _ => ⟨rfl, rfl⟩⟩
    · rcases Nat.lt_or_ge p.length maxLine with hshort | hlong
      · set f' : Framer := { pending := p ++ newline :: rest, handed := p.length + 1 }
        have hrest : held f' = rest := held_handed p rest
        have hdrain : drain (fuel + 1) f = ((drain fuel f').1, p :: (drain fuel f').2) := by
          rw [drain, framerNext_line hopen hheld hp hshort]
        have hlen : (held f').length < fuel := by
          rw [hheld, List.length_append, List.length_cons] at hfuel
          rw [hrest]
          omega
        obtain ⟨hbound, hbroken, hwhole⟩ := drain_spec (f := f') rfl hlen
        rw [hrest] at hbroken hwhole
        rw [hdrain, hheld, segments_cons hp, tail_cons hp]
        refine ⟨List.forall_mem_cons.2 ⟨hshort, hbound⟩, ?_, fun h => ?_⟩
        · rintro ⟨l, hl, hlong⟩
          rcases List.mem_cons.1 hl with rfl | hl
          · exact absurd hshort (Nat.not_lt.2 hlong)
          · exact hbroken ⟨l, hl, hlong⟩
        · obtain ⟨hlines, htail⟩ := hwhole h
          exact ⟨congrArg (p :: ·) hlines, htail⟩
      · obtain ⟨why, hnext⟩ := framerNext_long hopen hheld hp hlong
        have hdrain : drain (fuel + 1) f =
            ({ pending := p ++ newline :: rest, broken := true }, []) := by
          rw [drain, hnext]
        rw [hdrain]
        exact ⟨by simp, fun _ => rfl, fun h => by cases h⟩

theorem framerAdd_cases (f : Framer) (bytes : Bytes) :
    (∃ why, (framerAdd f bytes).2 = some why ∧ (framerAdd f bytes).1.broken = true) ∨
      f.broken = false ∧ framerAdd f bytes = ({ pending := held f ++ bytes }, none) := by
  unfold framerAdd
  cases hbroken : f.broken with
  | true => exact .inl ⟨stopped, by simp [hbroken]⟩
  | false =>
    rw [if_neg (by simp)]
    dsimp only
    split_ifs
    · exact .inl ⟨_, rfl, rfl⟩
    · exact .inl ⟨_, rfl, rfl⟩
    · exact .inr ⟨rfl, by simp [dropHanded, held, hbroken]⟩

/-- What a connection has after a stream : lines within the bound, and, unless it is broken, the
stream's segments and what is left of it. -/
structure Reads (stream : Bytes) (s : Framer × List Bytes) : Prop where
  bound : ∀ l ∈ s.2, l.length < maxLine
  refused : (∃ l ∈ segments newline stream, maxLine ≤ l.length) → s.1.broken = true
  lines : s.1.broken = false → s.2 = segments newline stream
  held : s.1.broken = false → held s.1 = tail newline stream

theorem Reads.feed {stream : Bytes} {s : Framer × List Bytes} (h : Reads stream s)
    (chunk : Bytes) : Reads (stream ++ chunk) (feed s chunk) := by
  rcases framerAdd_cases s.1 chunk with ⟨why, hwhy, hbroken⟩ | ⟨hopen, hadd⟩
  · have hfeed : Framing.feed s chunk = ((framerAdd s.1 chunk).1, s.2) := by
      have hadd : framerAdd s.1 chunk = ((framerAdd s.1 chunk).1, some why) :=
        Prod.ext rfl hwhy
      unfold Framing.feed
      rw [hadd]
    rw [hfeed]
    exact ⟨h.bound, fun _ => hbroken, fun hno => absurd (hbroken.symm.trans hno) (by decide),
      fun hno => absurd (hbroken.symm.trans hno) (by decide)⟩
  · set f : Framer := { pending := Framing.held s.1 ++ chunk }
    have hheld : Framing.held f = tail newline stream ++ chunk := by
      rw [← h.held hopen]
      rfl
    have hfeed : Framing.feed s chunk =
        ((drain (f.pending.length + 1) f).1, s.2 ++ (drain (f.pending.length + 1) f).2) := by
      unfold Framing.feed
      rw [hadd]
    obtain ⟨hbound, hbroken, hwhole⟩ :=
      @drain_spec (f.pending.length + 1) f rfl (Nat.lt_succ_self _)
    rw [hheld] at hbroken hwhole
    have hno : ∀ l ∈ segments newline stream, ¬maxLine ≤ l.length := fun l hl hlong =>
      absurd ((h.refused ⟨l, hl, hlong⟩).symm.trans hopen) (by decide)
    rw [hfeed]
    refine ⟨?_, ?_, fun hok => ?_, fun hok => ?_⟩
    · intro l hl
      exact (List.mem_append.1 hl).elim (h.bound l) (hbound l)
    · rintro ⟨l, hl, hlong⟩
      rw [segments_append] at hl
      rcases List.mem_append.1 hl with hl | hl
      · exact absurd hlong (hno l hl)
      · exact hbroken ⟨l, hl, hlong⟩
    · rw [(hwhole hok).1, h.lines hopen, ← segments_append]
    · rw [(hwhole hok).2, tail_append newline stream]

theorem reads_foldl : ∀ {chunks : List Bytes} {stream : Bytes} {s : Framer × List Bytes},
    Reads stream s → Reads (stream ++ chunks.flatten) (chunks.foldl feed s)
  | [], stream, s, h => by simpa using h
  | chunk :: chunks, stream, s, h => by
    rw [List.flatten_cons, ← List.append_assoc, List.foldl_cons]
    exact reads_foldl (h.feed chunk)

/-- The run lemma : any chunks are read as the bytes they make. -/
theorem reads_run (chunks : List Bytes) : Reads chunks.flatten (run chunks) := by
  have hstart : Reads [] ({}, []) :=
    ⟨by simp, by simp [segments_of_not_mem], fun _ => by simp [segments_of_not_mem],
      fun _ => by simp [held, tail_of_not_mem]⟩
  rw [← List.nil_append chunks.flatten]
  exact reads_foldl hstart

/-- **Framing is independent of chunking.** Two ways of cutting a stream that do not break the
framer hand out the same lines, which are the segments a newline ends, in order, and with what is
left they are the whole stream. No line handed out is past the bound, and a stream with a segment
past it breaks the framer however it is cut. -/
theorem framing_independent_of_chunking (cs ds : List Bytes) (hsame : cs.flatten = ds.flatten) :
    ((run cs).1.broken = false → (run ds).1.broken = false → (run cs).2 = (run ds).2) ∧
      ((run cs).1.broken = false → (run cs).2 = segments newline cs.flatten ∧
        ended newline (run cs).2 ++ held (run cs).1 = cs.flatten) ∧
      (∀ l ∈ (run cs).2, l.length ≤ maxLine - 1) ∧
      ((∃ l ∈ segments newline cs.flatten, maxLine ≤ l.length) → (run cs).1.broken = true) := by
  have hcs := reads_run cs
  have hds := reads_run ds
  refine ⟨fun hc hd => ?_, fun hc => ⟨hcs.lines hc, ?_⟩, fun l hl => ?_, hcs.refused⟩
  · rw [hcs.lines hc, hds.lines hd, hsame]
  · rw [hcs.lines hc, hcs.held hc, ended_segments]
  · exact Nat.le_sub_one_of_lt (hcs.bound l hl)

/-- Two messages in one read and in three. -/
theorem cut_in_two_places :
    (run [[97, 10, 98, 10]]).2 = [[97], [98]] ∧
      (run [[97, 10, 98, 10]]).2 = (run [[97], [10, 98], [10]]).2 :=
  ⟨by decide +kernel, (framing_independent_of_chunking [[97, 10, 98, 10]] [[97], [10, 98], [10]]
    (by decide)).1 (by decide +kernel) (by decide +kernel)⟩

end Netcfgd.Framing
