import Netcfgd.NetlinkDump
import Netcfgd.Trace

/-!
# The verdict of each operation on a netlink socket

Runs of `ncfg_netlink_request` and `ncfg_netlink_send_batch` of `src/sys/socket.c` on one socket. A
turn is an operation, what the kernel makes of its messages, and what arrives while it waits : its
own answer, what is left of earlier ones, notifications, other processes' datagrams and failures, in
any order. What it leaves unread the next turn finds.

A request asks each message for its number. A batch takes any, so what an operation that was given
up on left behind is read as the next batch's own (`stale_done_accepts`). In every run whose batches
find nothing of earlier operations but acknowledgements, whose single-shot requests hear no
notification before their answer, and that takes fewer than 2^32 numbers, every verdict is the
operation's own (`verdicts_own`).
-/

namespace Netcfgd.Netlink

/-! ## Turns -/

/-- What one read of the socket finds. `answer k` is part of what the kernel answers turn `k`. -/
inductive Event
  | failed (errno : ℕ)
  | foreign (sender : ℕ) (bytes : Bytes) (unread : Option ℕ)
  | notice (bytes : Bytes) (unread : Option ℕ)
  | answer (turn : ℕ) (bytes : Bytes) (unread : Option ℕ)

def Event.arrival : Event → Arrival
  | .failed errno => .failed errno
  | .foreign sender bytes unread => .datagram (sender + 1) bytes unread
  | .notice bytes unread => .datagram 0 bytes unread
  | .answer _ bytes unread => .datagram 0 bytes unread

/-- The datagram, when the event is part of the answer to turn `k`. -/
def Event.of (k : ℕ) : Event → Option Bytes
  | .answer turn bytes _ => if turn = k then some bytes else none
  | _ => none

def messagesIn (datagrams : List Bytes) : List Message :=
  datagrams.flatMap fun bytes => (messagesOf bytes).1

/-- What is asked of the kernel : a request, or a batch of messages, the one after `before` the last
that asks for an acknowledgement. -/
inductive Op
  | request (flags initial : ℕ)
  | batch (before after : ℕ)

def Op.count : Op → ℕ
  | .request _ _ => 1
  | .batch before after => before + 1 + after

/-- The place of the last message that asks for an acknowledgement. -/
def Op.lastAsked : Op → ℕ
  | .request _ _ => 0
  | .batch before _ => before

/-- One operation, and all the kernel has to do with it. -/
structure Turn where
  op : Op
  /-- What the kernel makes of each message : 0, or the errno it refuses it with. -/
  codes : List ℤ
  answer : List Bytes
  unsent : Option Failure
  arrived : List Event

/-- A socket between two operations, and what the kernel has not delivered yet. -/
structure World where
  socket : Socket := {}
  turns : ℕ := 0
  queue : List Event := []
  owed : ℕ → List Bytes := fun _ => []

def World.numbers (w : World) (t : Turn) : List ℕ := (takeSeqs t.op.count w.socket.seq).1

/-- The number of the last of them that asks for an acknowledgement. -/
def World.lastAcked (w : World) (t : Turn) : ℕ := (w.numbers t).getD t.op.lastAsked 0

def World.seen (w : World) (t : Turn) : List Event := w.queue ++ t.arrived

def World.perform (w : World) (t : Turn) : Outcome × Socket :=
  match t.op with
  | .request flags initial =>
    w.socket.request flags initial t.unsent ((w.seen t).map Event.arrival)
  | .batch _ _ =>
    { w.socket with seq := (takeSeqs t.op.count w.socket.seq).2 }.sendBatch (w.lastAcked t)
      t.unsent ((w.seen t).map Event.arrival)

def World.outcome (w : World) (t : Turn) : Outcome := (w.perform t).1

/-- What of the events is read where `rest` of them is left. -/
def World.readTo (w : World) (t : Turn) (rest : List Arrival) : List Event :=
  (w.seen t).take ((w.seen t).length - rest.length)

def World.owing (w : World) (t : Turn) : ℕ → List Bytes := Function.update w.owed w.turns t.answer

/-- A turn of the socket and the kernel. -/
def World.step (w : World) (t : Turn) : World where
  socket := (w.perform t).2
  turns := w.turns + 1
  queue := (w.seen t).drop ((w.seen t).length - (w.outcome t).rest.length)
  owed := fun k => (w.owing t k).drop (t.arrived.filterMap (Event.of k)).length

/-! ## The kernel -/

def Acknowledges (m : Message) : Prop := m.header.kind = nlmsgError ∧ replyErrorCode m = 0

instance : DecidablePred Acknowledges := fun _ => inferInstanceAs (Decidable (_ ∧ _))

/-- What a notification holds : nothing that anybody asked for, and nothing that ends an answer. -/
def Unsolicited (bytes : Bytes) : Prop :=
  ∀ m ∈ (messagesOf bytes).1, m.header.seq = 0 ∧ ¬ Ends m

/-- What the kernel answers an operation with, of the numbers and with the codes of its messages. -/
structure Answers (op : Op) (numbers : List ℕ) (codes : List ℤ) (answer : List Message) :
    Prop where
  numbered : ∀ m ∈ answer, m.header.seq ∈ numbers
  /-- An `NLMSG_ERROR` is what became of the message with its number. -/
  verdicts : ∀ m ∈ answer, m.header.kind = nlmsgError →
    (m.header.seq, replyErrorCode m) ∈ numbers.zip codes
  /-- An acknowledgement is one that was asked for. -/
  asked : ∀ m ∈ answer, Acknowledges m →
    m.header.seq ∈ numbers.take (op.lastAsked + 1)
  /-- A refused transaction gets its errors before the last acknowledgement. -/
  refusedFirst : (∃ c ∈ codes, c ≠ 0) → ∀ before m after, answer = before ++ m :: after →
    Acknowledges m → m.header.seq = numbers.getD op.lastAsked 0 → ∃ e ∈ before, Refuses e
  /-- An `NLMSG_DONE` ends a dump the kernel accepted. -/
  dones : ∀ m ∈ answer, m.header.kind = nlmsgDone →
    (∃ flags initial, op = .request flags initial ∧ flags &&& nlmFDump ≠ 0) ∧ ∀ c ∈ codes, c = 0
  /-- A request is answered with something only when it is accepted. -/
  payloads : ∀ flags initial, op = .request flags initial →
    ∀ m ∈ answer, ¬ Ends m → ∀ c ∈ codes, c = 0

/-- What the kernel does in a turn : it answers what it was sent, tells of other things in
notifications, and delivers what it owes in order. -/
structure Lawful (w : World) (t : Turn) : Prop where
  coded : t.codes.length = t.op.count
  answers : Answers t.op (w.numbers t) t.codes (messagesIn t.answer)
  unsent : t.unsent ≠ none → t.answer = []
  notices : ∀ bytes unread, .notice bytes unread ∈ t.arrived → Unsolicited bytes
  delivers : ∀ k, t.arrived.filterMap (Event.of k) <+: w.owing t k

/-! ## An operation's own verdict -/

/-- What settles an operation once it is read : of a request anything of its own, of a batch a
refusal, or an acknowledgement from the last one asked for on. -/
def Op.Decides (last : ℕ) : Op → Message → Prop
  | .request _ _, _ => True
  | .batch _ _, m => Refuses m ∨ Acknowledges m ∧ last ≤ m.header.seq

instance (last : ℕ) : ∀ op : Op, DecidablePred (op.Decides last)
  | .request _ _ => fun _ => inferInstanceAs (Decidable True)
  | .batch _ _ => fun _ => inferInstanceAs (Decidable (_ ∨ _ ∧ _))

/-- A turn reads no further than a read that fails, or what settles it. -/
def Event.stops (n last : ℕ) (op : Op) : Event → Bool
  | .failed _ => true
  | .foreign _ _ unread => unread.isSome
  | .notice _ unread => unread.isSome
  | .answer turn bytes unread =>
    unread.isSome || turn = n && (messagesOf bytes).1.any fun m => op.Decides last m

def World.ahead (w : World) (t : Turn) : List Event :=
  (w.seen t).takeWhile fun e => !e.stops w.turns (w.lastAcked t) t.op

/-- A turn the socket can keep to itself : its numbers are new, no notification is ahead of a
single-shot request's answer, and ahead of a batch's there is nothing of earlier operations but
acknowledgements. -/
structure Calm (w : World) (t : Turn) : Prop where
  new : w.socket.seq + t.op.count < 2 ^ 32
  quiet : ∀ flags initial, t.op = .request flags initial → flags &&& nlmFDump = 0 →
    ∀ bytes unread, .notice bytes unread ∉ w.ahead t
  acknowledged : ∀ before after, t.op = .batch before after →
    ∀ k bytes unread, .answer k bytes unread ∈ w.ahead t → k ≠ w.turns →
      ∀ m ∈ (messagesOf bytes).1, Acknowledges m

def World.own (w : World) (t : Turn) : List Message :=
  messagesIn ((w.seen t).filterMap (Event.of w.turns))

def payloadsIn (ms : List Message) : List Bytes :=
  (ms.filter fun m => ¬ Ends m).map Message.payload

/-- The payloads of an event, unless it is part of another turn's answer. -/
def Event.offered (n : ℕ) : Event → List Bytes
  | .notice bytes _ => payloadsIn (messagesOf bytes).1
  | .answer turn bytes _ => if turn = n then payloadsIn (messagesOf bytes).1 else []
  | _ => []

def Op.Concludes (last : ℕ) : Op → Message → Prop
  | .request flags _, m => ¬ Refuses m ∧ (flags &&& nlmFDump ≠ 0 → Ends m)
  | .batch _ _, m => Acknowledges m ∧ last ≤ m.header.seq

/-- The last event that was read is of the turn's own answer, and `m` is in it. -/
def World.LastRead (w : World) (t : Turn) (rest : List Arrival) (m : Message) : Prop :=
  ∃ before bytes unread, w.readTo t rest = before ++ [Event.answer w.turns bytes unread] ∧
    m ∈ (messagesOf bytes).1

/-- A turn's verdict is its own : it succeeds when the kernel accepted all of its messages, it is
refused with what the kernel refused one of them with, and either way what it read last is its own
answer, with the message that settles it. No payload it returns is part of another turn's answer. -/
structure OwnVerdict (w : World) (t : Turn) : Prop where
  accepted : (w.outcome t).failure = none → ∀ c ∈ t.codes, c = 0
  concluded : (w.outcome t).failure = none →
    ∃ m, w.LastRead t (w.outcome t).rest m ∧ t.op.Concludes (w.lastAcked t) m
  refused : (w.outcome t).reply.refused ≠ 0 → (w.outcome t).reply.refused ∈ t.codes ∧
    ∃ m, w.LastRead t (w.outcome t).rest m ∧ Refuses m ∧
      replyErrorCode m = (w.outcome t).reply.refused
  payloads : List.Sublist (w.outcome t).reply.items
    ((w.readTo t (w.outcome t).rest).flatMap (Event.offered w.turns))

def Earlier (seq : ℕ) (bytes : Bytes) : Prop :=
  ∀ m ∈ (messagesOf bytes).1, 0 < m.header.seq ∧ m.header.seq ≤ seq

/-- The invariant of a socket between operations : what is queued or still owed answers operations
that are over. -/
structure World.Kept (w : World) : Prop where
  queued : ∀ k bytes unread, .answer k bytes unread ∈ w.queue →
    k < w.turns ∧ Earlier w.socket.seq bytes
  notices : ∀ bytes unread, .notice bytes unread ∈ w.queue → Unsolicited bytes
  owed : ∀ k, ∀ bytes ∈ w.owed k, k < w.turns ∧ Earlier w.socket.seq bytes

/-- While an operation waits : `seen` is what it has not read, and nothing has refused it. -/
structure Waits (w : World) (t : Turn) (seen : List Event) (reply : Reply) : Prop where
  unrefused : reply.refused = 0
  items : ∃ before, w.seen t = before ++ seen ∧
    List.Sublist reply.items (before.flatMap (Event.offered w.turns))

structure Awaits (w : World) (t : Turn) (single : Bool) (seen : List Event) (reply : Reply) :
    Prop extends Waits w t seen reply where
  quiet : single → reply.items = [] ∧ ∀ bytes unread, .notice bytes unread ∉
    seen.takeWhile fun e => !e.stops w.turns (w.lastAcked t) t.op

/-- What the loop settles an operation with : `concludes` are the messages it succeeds with. -/
structure Settled (w : World) (t : Turn) (concludes : Message → Prop) (outcome : Outcome) :
    Prop where
  concluded : outcome.failure = none → ∃ m, w.LastRead t outcome.rest m ∧ concludes m
  refused : outcome.reply.refused ≠ 0 → ∃ m, w.LastRead t outcome.rest m ∧ Refuses m ∧
    replyErrorCode m = outcome.reply.refused
  payloads : List.Sublist outcome.reply.items
    ((w.readTo t outcome.rest).flatMap (Event.offered w.turns))

def Decisive (last : ℕ) (m : Message) : Prop :=
  Refuses m ∨ Acknowledges m ∧ last ≤ m.header.seq ∨ m.header.kind = nlmsgDone

/-- What the walk over a datagram of a batch comes to : it is read up to its first decisive message,
which refuses the batch or ends it, or to its end. -/
inductive BatchWalk (last : ℕ) (reply : Reply) (ms : List Message) : Reply × Absorb → Prop
  | refuses {pre post : List Message} {m : Message} {reply' : Reply} (why : Failure)
      (hms : ms = pre ++ m :: post) (hpre : ∀ x ∈ pre, ¬ Decisive last x) (hm : Refuses m)
      (hcode : reply'.refused = replyErrorCode m) : BatchWalk last reply ms (reply', .bad why)
  | ends {pre post : List Message} {m : Message}
      (hms : ms = pre ++ m :: post) (hpre : ∀ x ∈ pre, ¬ Decisive last x) (hm : Decisive last m)
      (hnot : ¬ Refuses m) :
      BatchWalk last reply ms ({ reply with items := reply.items ++ payloadsIn pre }, .done)
  | goes {outcome : Absorb} (hms : ∀ x ∈ ms, ¬ Decisive last x) (hdone : outcome ≠ .done) :
      BatchWalk last reply ms ({ reply with items := reply.items ++ payloadsIn ms }, outcome)

def ReadTo (t : Turn) (before unread : List Message) : Prop :=
  (∀ m ∈ before, ¬ Refuses m) ∧ ∃ later, messagesIn t.answer = before ++ unread ++ later

structure AwaitsBatch (w : World) (t : Turn) (seen : List Event) (reply : Reply) : Prop
    extends Waits w t seen reply where
  acknowledged : ∀ k bytes unread, .answer k bytes unread ∈
    (seen.takeWhile fun e => !e.stops w.turns (w.lastAcked t) t.op) → k ≠ w.turns →
      ∀ m ∈ (messagesOf bytes).1, Acknowledges m
  read : ∃ before, ReadTo t before (messagesIn (seen.filterMap (Event.of w.turns)))

/-! ## Numbers -/

theorem takeSeqs_new : ∀ (n seq : ℕ), seq + n < 2 ^ 32 →
    takeSeqs n seq = (List.range' (seq + 1) n, seq + n) := by
  intro n
  induction n with
  | zero => exact fun seq _ => rfl
  | succ n ih =>
    intro seq hnew
    have hnext : nextSeq seq = seq + 1 := by
      have hmod : (seq + 1) % 2 ^ 32 = seq + 1 := Nat.mod_eq_of_lt (by omega)
      simp only [nextSeq, hmod]
      exact if_neg (by omega)
    rw [takeSeqs, hnext, ih (seq + 1) (by omega), List.range'_succ]
    exact Prod.ext rfl (by simp only; omega)

section Numbers

variable {w : World} {t : Turn}

theorem numbers_new (h : w.socket.seq + t.op.count < 2 ^ 32) :
    w.numbers t = List.range' (w.socket.seq + 1) t.op.count := by
  rw [World.numbers, takeSeqs_new _ _ h]

theorem Op.lastAsked_lt (op : Op) : op.lastAsked < op.count := by
  cases op with
  | request => exact Nat.one_pos
  | batch before after => exact Nat.lt_add_right _ (Nat.lt_succ_self _)

theorem lastAcked_new (h : w.socket.seq + t.op.count < 2 ^ 32) :
    w.lastAcked t = w.socket.seq + 1 + t.op.lastAsked := by
  have hlt : t.op.lastAsked < (List.range' (w.socket.seq + 1) t.op.count).length := by
    simpa using t.op.lastAsked_lt
  rw [World.lastAcked, numbers_new h, List.getD_eq_getElem?_getD, List.getElem?_eq_getElem hlt]
  simp

theorem seq_step (h : w.socket.seq + t.op.count < 2 ^ 32) :
    (w.step t).socket.seq = w.socket.seq + t.op.count := by
  have htake := congrArg Prod.snd (takeSeqs_new _ _ h)
  have hone : t.op.count = 1 → nextSeq w.socket.seq = w.socket.seq + 1 := by
    intro hcount
    rw [hcount] at htake
    exact htake
  unfold World.step World.perform Socket.request Socket.sendBatch
  cases hop : t.op with
  | request flags initial =>
    rw [hop] at hone
    cases t.unsent with
    | none => exact hone rfl
    | some why => exact hone rfl
  | batch before after =>
    rw [hop] at htake
    cases t.unsent with
    | none => exact htake
    | some why => exact htake

end Numbers

/-! ## What is left behind -/

/-- A fresh socket keeps the invariant. -/
theorem World.Kept.fresh (generic : Bool) : World.Kept { socket := { generic := generic } } :=
  ⟨by simp, by simp, by simp⟩

theorem Event.of_eq_some {k : ℕ} {e : Event} {bytes : Bytes} (h : e.of k = some bytes) :
    ∃ unread, e = .answer k bytes unread := by
  cases e with
  | answer turn bytes' unread =>
    simp only [Event.of] at h
    split_ifs at h with hturn
    obtain rfl := Option.some.inj h
    exact ⟨unread, by rw [hturn]⟩
  | _ => exact absurd h (by simp [Event.of])

section Kept

variable {w : World} {t : Turn}

theorem Lawful.owing_of_arrived (h : Lawful w t) {k : ℕ} {bytes : Bytes} {unread : Option ℕ}
    (he : .answer k bytes unread ∈ t.arrived) : bytes ∈ w.owing t k := by
  refine (h.delivers k).subset (List.mem_filterMap.mpr ⟨_, he, ?_⟩)
  exact if_pos rfl

theorem Lawful.numbered (h : Lawful w t) (hnew : w.socket.seq + t.op.count < 2 ^ 32) :
    ∀ m ∈ messagesIn t.answer, w.socket.seq < m.header.seq ∧
      m.header.seq ≤ w.socket.seq + t.op.count := by
  intro m hm
  have hseq := h.answers.numbered m hm
  rw [numbers_new hnew, List.mem_range'_1] at hseq
  omega

theorem World.Kept.owing (hw : w.Kept) (h : Lawful w t)
    (hnew : w.socket.seq + t.op.count < 2 ^ 32) {k : ℕ} {bytes : Bytes}
    (hbytes : bytes ∈ w.owing t k) :
    k < w.turns + 1 ∧ Earlier (w.socket.seq + t.op.count) bytes := by
  by_cases hk : k = w.turns
  · subst hk
    rw [World.owing, Function.update_self] at hbytes
    refine ⟨Nat.lt_succ_self _, fun m hm => ?_⟩
    have := h.numbered hnew m (List.mem_flatMap.mpr ⟨bytes, hbytes, hm⟩)
    omega
  · rw [World.owing, Function.update_of_ne hk] at hbytes
    obtain ⟨hlt, hearlier⟩ := hw.owed k bytes hbytes
    exact ⟨hlt.trans (Nat.lt_succ_self _), fun m hm => by
      have := hearlier m hm
      omega⟩

/-- The step lemma of the invariant. -/
theorem World.Kept.step (hw : w.Kept) (h : Lawful w t)
    (hnew : w.socket.seq + t.op.count < 2 ^ 32) : (w.step t).Kept := by
  have hseq := seq_step hnew
  have hqueue {e : Event} (he : e ∈ (w.step t).queue) : e ∈ w.queue ∨ e ∈ t.arrived :=
    List.mem_append.mp (List.mem_of_mem_drop he)
  refine ⟨fun k bytes unread he => ?_, fun bytes unread he => ?_, fun k bytes hbytes => ?_⟩
  · rw [hseq]
    rcases hqueue he with he | he
    · obtain ⟨hlt, hearlier⟩ := hw.queued k bytes unread he
      exact ⟨hlt.trans (Nat.lt_succ_self _), fun m hm => by
        have := hearlier m hm
        omega⟩
    · exact hw.owing h hnew (h.owing_of_arrived he)
  · rcases hqueue he with he | he
    · exact hw.notices bytes unread he
    · exact h.notices bytes unread he
  · rw [hseq]
    exact hw.owing h hnew (List.mem_of_mem_drop hbytes)

theorem World.Kept.stale (hw : w.Kept) (h : Lawful w t) {k : ℕ} {bytes : Bytes}
    {unread : Option ℕ} (he : .answer k bytes unread ∈ w.seen t) (hk : k ≠ w.turns) :
    Earlier w.socket.seq bytes := by
  rcases List.mem_append.mp he with he | he
  · exact (hw.queued k bytes unread he).2
  · have := h.owing_of_arrived he
    rw [World.owing, Function.update_of_ne hk] at this
    exact (hw.owed k bytes this).2

theorem World.Kept.unsolicited (hw : w.Kept) (h : Lawful w t) {bytes : Bytes}
    {unread : Option ℕ} (he : .notice bytes unread ∈ w.seen t) : Unsolicited bytes := by
  rcases List.mem_append.mp he with he | he
  · exact hw.notices bytes unread he
  · exact h.notices bytes unread he

theorem World.Kept.own_prefix (hw : w.Kept) (h : Lawful w t) :
    w.own t <+: messagesIn t.answer := by
  have hqueue : w.queue.filterMap (Event.of w.turns) = [] := by
    rw [List.filterMap_eq_nil_iff]
    intro e he
    rw [Option.eq_none_iff_forall_ne_some]
    intro bytes hbytes
    obtain ⟨unread, rfl⟩ := Event.of_eq_some hbytes
    exact absurd (hw.queued _ _ _ he).1 (lt_irrefl _)
  obtain ⟨later, hlater⟩ := h.delivers w.turns
  rw [World.owing, Function.update_self] at hlater
  rw [World.own, World.seen, List.filterMap_append, hqueue, List.nil_append, ← hlater]
  exact ⟨messagesIn later, (List.flatMap_append ..).symm⟩

end Kept

/-! ## One datagram of a request -/

theorem absorbReply_refused (seq : ℕ) (fault : Option String) : ∀ (ms : List Message)
    (reply : Reply) (outcome : Absorb),
    (absorbReply seq fault reply outcome ms).1.refused = reply.refused ∨
      ∃ m ∈ ms, Mine seq m ∧ Refuses m ∧
        (absorbReply seq fault reply outcome ms).1.refused = replyErrorCode m := by
  intro ms
  induction ms with
  | nil =>
    intro reply outcome
    cases fault with
    | none => exact .inl rfl
    | some said => exact .inl rfl
  | cons m ms ih =>
    have hrest : ∀ reply outcome, (absorbReply seq fault reply outcome ms).1.refused =
        reply.refused ∨ ∃ n ∈ m :: ms, Mine seq n ∧ Refuses n ∧
          (absorbReply seq fault reply outcome ms).1.refused = replyErrorCode n := by
      intro reply outcome
      rcases ih reply outcome with h | ⟨n, hn, h⟩
      · exact .inl h
      · exact .inr ⟨n, List.mem_cons_of_mem _ hn, h⟩
    intro reply outcome
    rw [absorbReply]
    by_cases hskip : m.header.seq ≠ seq ∧ m.header.seq ≠ 0
    · rw [if_pos hskip]
      exact hrest reply outcome
    · rw [if_neg hskip]
      by_cases herror : m.header.kind = nlmsgError
      · rw [if_pos herror]
        by_cases hcode : replyErrorCode m ≠ 0
        · have hmine : Mine seq m := by
            by_contra hmine
            exact hskip (by simpa [Mine] using hmine)
          simp only [if_pos hcode]
          exact .inr ⟨m, List.mem_cons_self .., hmine, ⟨herror, hcode⟩, rfl⟩
        · simp only [if_neg hcode]
          exact hrest reply .done
      · rw [if_neg herror]
        by_cases hdone : m.header.kind = nlmsgDone
        · rw [if_pos hdone]
          exact hrest reply .done
        · rw [if_neg hdone]
          exact hrest { reply with items := reply.items ++ [m.payload] } outcome

theorem absorbDump_good {seq : ℕ} {bytes : Bytes} {reply reply' : Reply} {outcome : Absorb}
    (h : absorbDump seq reply bytes = (reply', outcome)) (hbad : ∀ why, outcome ≠ .bad why) :
    reply' = { reply with items := reply.items ++ payloads seq (messagesOf bytes).1 } ∧
      outcome = (if ∃ m ∈ (messagesOf bytes).1, Mine seq m ∧ Ends m then .done else .more) ∧
      ∀ m ∈ (messagesOf bytes).1, Mine seq m → ¬ Refuses m := by
  have hfail : ¬ ((messagesOf bytes).2 ≠ none ∨
      ∃ m ∈ (messagesOf bytes).1, Mine seq m ∧ Refuses m) := by
    intro hfail
    obtain ⟨reply'', why, hreply⟩ := absorbReply_bad seq _ (messagesOf bytes).1 reply .more hfail
    rw [absorbDump, hreply] at h
    exact hbad why (Prod.mk.inj h).2.symm
  push Not at hfail
  rw [absorbDump, hfail.1, absorbReply_unrefused seq _ reply .more hfail.2] at h
  obtain ⟨rfl, rfl⟩ := Prod.mk.inj h
  exact ⟨rfl, rfl, hfail.2⟩

/-- What a datagram offers a request is what its messages hold, when they are its own or nobody's,
and nothing when they are another's. -/
theorem payloads_eq {seq : ℕ} {ms : List Message} (h : ∀ m ∈ ms, Mine seq m) :
    payloads seq ms = payloadsIn ms := by
  rw [payloads, payloadsIn]
  refine congrArg (List.map Message.payload) (List.filter_congr fun m hm => ?_)
  simp [h m hm]

theorem payloads_other {seq : ℕ} {ms : List Message} (h : ∀ m ∈ ms, ¬ Mine seq m) :
    payloads seq ms = [] := by
  rw [payloads, List.map_eq_nil_iff, List.filter_eq_nil_iff]
  intro m hm
  simp [h m hm]

/-! ## A request -/

section Turn

variable {w : World} {t : Turn}

variable {e : Event} {bytes : Bytes}

theorem Event.kernel_cases (h : e.arrival = .datagram 0 bytes none) :
    e = .notice bytes none ∨ ∃ k, e = .answer k bytes none := by
  cases e with
  | failed errno => simp [Event.arrival] at h
  | foreign sender bytes' unread => simp [Event.arrival] at h
  | notice bytes' unread =>
    simp only [Event.arrival, Arrival.datagram.injEq, true_and] at h
    exact .inl (by rw [h.1, h.2])
  | answer k bytes' unread =>
    simp only [Event.arrival, Arrival.datagram.injEq, true_and] at h
    exact .inr ⟨k, by rw [h.1, h.2]⟩

variable {m : Message}

theorem mem_own {unread : Option ℕ}
    (he : .answer w.turns bytes unread ∈ w.seen t) (hm : m ∈ (messagesOf bytes).1) :
    m ∈ w.own t :=
  List.mem_flatMap.mpr ⟨bytes, List.mem_filterMap.mpr ⟨_, he, if_pos rfl⟩, hm⟩

variable {seen : List Event} {reply : Reply}

theorem readTo_eq {before : List Event} (h : w.seen t = before ++ e :: seen) :
    w.readTo t (seen.map Event.arrival) = before ++ [e] := by
  have hlength : before.length + (seen.length + 1) - seen.length = (before ++ [e]).length := by
    simp only [List.length_append, List.length_singleton]
    omega
  have hsplit : before ++ e :: seen = (before ++ [e]) ++ seen := by simp
  rw [World.readTo, h, List.length_append, List.length_cons, List.length_map, hlength, hsplit,
    List.take_left]

theorem Waits.head (h : Waits w t (e :: seen) reply) : e ∈ w.seen t := by
  obtain ⟨before, hseen, -⟩ := h.items
  simp [hseen]

/-- What is kept of an event adds to what was kept before it. -/
theorem Waits.took (h : Waits w t (e :: seen) reply) {items : List Bytes}
    (hitems : List.Sublist items (e.offered w.turns)) :
    ∃ before, w.seen t = before ++ seen ∧ w.readTo t (seen.map Event.arrival) = before ∧
      List.Sublist (reply.items ++ items) (before.flatMap (Event.offered w.turns)) := by
  obtain ⟨before, hseen, hbefore⟩ := h.items
  refine ⟨before ++ [e], by simp [hseen], readTo_eq hseen, ?_⟩
  rw [List.flatMap_append, List.flatMap_singleton]
  exact hbefore.append hitems

theorem Waits.next (h : Waits w t (e :: seen) reply) {items : List Bytes}
    (hitems : List.Sublist items (e.offered w.turns)) :
    Waits w t seen { reply with items := reply.items ++ items } := by
  obtain ⟨before, hseen, -, hread⟩ := h.took hitems
  exact ⟨h.unrefused, before, hseen, hread⟩

theorem Waits.payloads (h : Waits w t (e :: seen) reply) {items : List Bytes}
    (hitems : List.Sublist items (e.offered w.turns)) :
    List.Sublist (reply.items ++ items)
      ((w.readTo t (seen.map Event.arrival)).flatMap (Event.offered w.turns)) := by
  obtain ⟨before, -, hto, hread⟩ := h.took hitems
  rwa [hto]

theorem Waits.lastRead (h : Waits w t (.answer w.turns bytes none :: seen) reply)
    (hm : m ∈ (messagesOf bytes).1) : w.LastRead t (seen.map Event.arrival) m := by
  obtain ⟨before, hseen, -⟩ := h.items
  exact ⟨before, bytes, none, readTo_eq hseen, hm⟩

theorem World.LastRead.mem_own {rest : List Arrival} (h : w.LastRead t rest m) : m ∈ w.own t := by
  obtain ⟨before, bytes, unread, hread, hm⟩ := h
  have hlast : Event.answer w.turns bytes unread ∈ w.readTo t rest := by simp [hread]
  exact Netlink.mem_own (List.mem_of_mem_take hlast) hm

theorem Waits.dropped {port : ℕ} {unread : Option ℕ}
    (h : Waits w t (.foreign port bytes unread :: seen) reply) :
    Waits w t seen { reply with dropped := reply.dropped + 1 } := by
  obtain ⟨before, hseen, -, hread⟩ := h.took (List.nil_sublist _)
  rw [List.append_nil] at hread
  exact ⟨h.unrefused, before, hseen, hread⟩

theorem Settled.giveUp {concludes : Message → Prop} {why : Failure} {left : List Arrival}
    (h : reply.refused ≠ 0 →
      ∃ m, w.LastRead t left m ∧ Refuses m ∧ replyErrorCode m = reply.refused) :
    Settled w t concludes (.giveUp why reply left) :=
  ⟨fun hfail => absurd hfail (by simp [Outcome.giveUp]), h, List.nil_sublist _⟩

theorem mine_cases (hw : w.Kept) (h : Lawful w t) (hc : Calm w t) {flags initial : ℕ}
    (hop : t.op = .request flags initial)
    (he : e.arrival = .datagram 0 bytes none) (hseen : e ∈ w.seen t) :
    (e = .notice bytes none ∧ ∀ m ∈ (messagesOf bytes).1, Mine (w.socket.seq + 1) m ∧ ¬ Ends m) ∨
    (e = .answer w.turns bytes none ∧
      ∀ m ∈ (messagesOf bytes).1, Mine (w.socket.seq + 1) m ∧ m ∈ w.own t) ∨
    (∃ k, k ≠ w.turns ∧ e = .answer k bytes none ∧
      ∀ m ∈ (messagesOf bytes).1, ¬ Mine (w.socket.seq + 1) m) := by
  rcases Event.kernel_cases he with rfl | ⟨k, rfl⟩
  · exact .inl ⟨rfl, fun m hm => ⟨.inr (hw.unsolicited h hseen m hm).1,
      (hw.unsolicited h hseen m hm).2⟩⟩
  · by_cases hk : k = w.turns
    · subst hk
      refine .inr (.inl ⟨rfl, fun m hm => ⟨.inl ?_, mem_own hseen hm⟩⟩)
      have := h.numbered hc.new m ((hw.own_prefix h).subset (mem_own hseen hm))
      rw [hop] at this
      exact le_antisymm this.2 this.1
    · refine .inr (.inr ⟨k, hk, rfl, fun m hm hmine => ?_⟩)
      have := hw.stale h hseen hk m hm
      rcases hmine with hmine | hmine <;> omega

theorem offered_eq (hw : w.Kept) (h : Lawful w t) (hc : Calm w t) {flags initial : ℕ}
    (hop : t.op = .request flags initial)
    (he : e.arrival = .datagram 0 bytes none) (hseen : e ∈ w.seen t) :
    e.offered w.turns = payloads (w.socket.seq + 1) (messagesOf bytes).1 := by
  rcases mine_cases hw h hc hop he hseen with ⟨rfl, hms⟩ | ⟨rfl, hms⟩ | ⟨k, hk, rfl, hms⟩
  · exact (payloads_eq fun m hm => (hms m hm).1).symm
  · rw [payloads_eq fun m hm => (hms m hm).1]
    exact if_pos rfl
  · rw [payloads_other hms]
    exact if_neg hk

theorem mem_takeWhile_cons {e' : Event} {p : Event → Bool} (hp : p e) (h : e' ∈ seen.takeWhile p) :
    e' ∈ (e :: seen).takeWhile p := by
  rw [List.takeWhile_cons_of_pos hp]
  exact List.mem_cons_of_mem _ h

theorem Event.foreign_of_arrival {sender : ℕ}
    (h : e.arrival = .datagram sender bytes none) (hsender : sender ≠ 0) :
    ∃ port, e = .foreign port bytes none := by
  cases e with
  | failed errno => simp [Event.arrival] at h
  | foreign port bytes' unread =>
    simp only [Event.arrival, Arrival.datagram.injEq] at h
    exact ⟨port, by rw [h.2.1, h.2.2]⟩
  | notice bytes' unread =>
    simp only [Event.arrival, Arrival.datagram.injEq] at h
    exact absurd h.1.symm hsender
  | answer k bytes' unread =>
    simp only [Event.arrival, Arrival.datagram.injEq] at h
    exact absurd h.1.symm hsender

theorem request_settled (hw : w.Kept) (h : Lawful w t) (hc : Calm w t) {flags initial : ℕ}
    (hop : t.op = .request flags initial) (fuel size : ℕ) :
    Settled w t (t.op.Concludes (w.lastAcked t))
      (collectLoop (absorbDump (w.socket.seq + 1)) (decide (flags &&& nlmFDump = 0)) fuel size {}
        ((w.seen t).map Event.arrival)) := by
  have hconcludes {m : Message} (hm : ¬ Refuses m) (hend : flags &&& nlmFDump ≠ 0 → Ends m) :
      t.op.Concludes (w.lastAcked t) m := by
    rw [hop]
    exact ⟨hm, hend⟩
  refine collectLoop_rule Event.arrival
    (I := Awaits w t (decide (flags &&& nlmFDump = 0))) (Q := Settled w t _) ?_ ?_ ?_ ?_ ?_
    (w.seen t) fuel size {} ⟨⟨rfl, [], rfl, List.Sublist.refl _⟩, fun hs => ⟨rfl, ?_⟩⟩
  · exact fun hI _ => .giveUp fun hne => absurd hI.unrefused hne
  · intro e seen reply sender bytes he hsender hI
    obtain ⟨port, rfl⟩ := Event.foreign_of_arrival he hsender
    refine ⟨hI.toWaits.dropped, fun hs => ⟨(hI.quiet hs).1, ?_⟩⟩
    exact fun bytes' unread hmem => (hI.quiet hs).2 bytes' unread (mem_takeWhile_cons rfl hmem)
  · intro e seen reply bytes reply' why he hI hstep
    refine .giveUp fun hne => ?_
    have hrefused := absorbReply_refused (w.socket.seq + 1) (messagesOf bytes).2
      (messagesOf bytes).1 reply .more
    rw [show absorbReply _ _ _ _ _ = _ from hstep] at hrefused
    rcases hrefused with hsame | ⟨m, hm, hmine, hrefuses, hcode⟩
    · exact absurd (hsame.trans hI.unrefused) hne
    · rcases mine_cases hw h hc hop he hI.head with ⟨-, hms⟩ | ⟨rfl, hms⟩ | ⟨k, -, -, hms⟩
      · exact absurd (.inl hrefuses.1) (hms m hm).2
      · exact ⟨m, hI.lastRead hm, hrefuses, hcode.symm⟩
      · exact absurd hmine (hms m hm)
  · intro e seen reply bytes reply' he hI hstep
    obtain ⟨rfl, hends, hunrefused⟩ := absorbDump_good hstep (by simp)
    have hends : ∃ m ∈ (messagesOf bytes).1, Mine (w.socket.seq + 1) m ∧ Ends m := by
      by_contra hnone
      simp [hnone] at hends
    obtain ⟨m, hm, hmine, hend⟩ := hends
    refine ⟨fun _ => ?_, fun hne => absurd hI.unrefused hne,
      hI.payloads (by rw [offered_eq hw h hc hop he hI.head])⟩
    rcases mine_cases hw h hc hop he hI.head with ⟨-, hms⟩ | ⟨rfl, hms⟩ | ⟨k, -, -, hms⟩
    · exact absurd hend (hms m hm).2
    · exact ⟨m, hI.lastRead hm, hconcludes (hunrefused m hm hmine) fun _ => hend⟩
    · exact absurd hmine (hms m hm)
  · intro e seen reply bytes reply' he hI hstep
    obtain ⟨rfl, hends, hunrefused⟩ := absorbDump_good hstep (by simp)
    have hnone : ∀ m ∈ (messagesOf bytes).1, Mine (w.socket.seq + 1) m → ¬ Ends m := by
      intro m hm hmine hend
      rw [if_pos ⟨m, hm, hmine, hend⟩] at hends
      exact absurd hends (by simp)
    have hitems : List.Sublist (payloads (w.socket.seq + 1) (messagesOf bytes).1)
        (e.offered w.turns) := by
      rw [offered_eq hw h hc hop he hI.head]
    split
    · rename_i hsingle
      obtain ⟨hs, hne⟩ := hsingle
      rw [(hI.quiet hs).1, List.nil_append] at hne
      refine ⟨fun _ => ?_, fun hne => absurd hI.unrefused hne, hI.payloads hitems⟩
      rcases mine_cases hw h hc hop he hI.head with ⟨rfl, -⟩ | ⟨rfl, hms⟩ | ⟨k, -, -, hms⟩
      · refine absurd ?_ ((hI.quiet hs).2 bytes none)
        rw [List.takeWhile_cons_of_pos rfl]
        exact List.mem_cons_self ..
      · obtain ⟨m, hm⟩ : ∃ m, m ∈ (messagesOf bytes).1 := by
          refine List.exists_mem_of_ne_nil _ fun hnil => hne ?_
          rw [hnil]
          rfl
        refine ⟨m, hI.lastRead hm, hconcludes (hunrefused m hm (hms m hm).1) fun hd => ?_⟩
        exact absurd (of_decide_eq_true hs) hd
      · exact absurd (payloads_other hms) hne
    · rename_i hsingle
      refine ⟨hI.toWaits.next hitems, fun hs => ?_⟩
      have hempty : reply.items ++ payloads (w.socket.seq + 1) (messagesOf bytes).1 = [] := by
        by_contra hne
        exact hsingle ⟨hs, hne⟩
      have hgoes : (!e.stops w.turns (w.lastAcked t) t.op) = true := by
        rcases mine_cases hw h hc hop he hI.head with ⟨rfl, -⟩ | ⟨rfl, hms⟩ | ⟨k, hk, rfl, -⟩
        · rfl
        · have hnil : (messagesOf bytes).1 = [] := by
            rw [List.eq_nil_iff_forall_not_mem]
            intro m hm
            have hpayload : m.payload ∈ payloads (w.socket.seq + 1) (messagesOf bytes).1 := by
              refine List.mem_map_of_mem (List.mem_filter.mpr ⟨hm, ?_⟩)
              simpa using ⟨(hms m hm).1, hnone m hm (hms m hm).1⟩
            rw [(List.append_eq_nil_iff.mp hempty).2] at hpayload
            exact List.not_mem_nil hpayload
          simp [Event.stops, hnil]
        · simp [Event.stops, hk]
      refine ⟨hempty, fun bytes' unread hmem => ?_⟩
      exact (hI.quiet hs).2 bytes' unread (mem_takeWhile_cons hgoes hmem)
  · exact hc.quiet flags initial hop (of_decide_eq_true hs)

/-! ## A batch -/

theorem ends_of_decisive {last : ℕ} (h : Decisive last m) : Ends m := by
  rcases h with h | ⟨h, -⟩ | h
  · exact .inl h.1
  · exact .inl h.1
  · exact .inr h

theorem payloadsIn_cons (m : Message) (ms : List Message) :
    payloadsIn (m :: ms) = (if Ends m then [] else [m.payload]) ++ payloadsIn ms := by
  by_cases h : Ends m <;> simp [payloadsIn, h]

theorem BatchWalk.cons {last : ℕ} {ms : List Message}
    {result : Reply × Absorb} (hnot : ¬ Decisive last m)
    (h : BatchWalk last { reply with items:= reply.items ++ if Ends m then [] else [m.payload] }
      ms result) : BatchWalk last reply (m :: ms) result := by
  have hcons {pre : List Message} (h : ∀ x ∈ pre, ¬ Decisive last x) :
      ∀ x ∈ m :: pre, ¬ Decisive last x := by
    intro x hx
    rcases List.mem_cons.mp hx with rfl | hx
    · exact hnot
    · exact h x hx
  cases h with
  | refuses why hms hpre hm hcode =>
    exact .refuses why (congrArg (m :: ·) hms) (hcons hpre) hm hcode
  | ends hms hpre hm hnotRefuses =>
    rw [List.append_assoc, ← payloadsIn_cons]
    exact .ends (congrArg (m :: ·) hms) (hcons hpre) hm hnotRefuses
  | goes hms hdone =>
    rw [List.append_assoc, ← payloadsIn_cons]
    exact .goes (hcons hms) hdone

theorem absorbBatch_walk (last : ℕ) (fault : Option String) : ∀ (ms : List Message)
    (reply : Reply), BatchWalk last reply ms (absorbBatch last fault reply ms) := by
  intro ms
  induction ms with
  | nil =>
    intro reply
    have hgoes {outcome : Absorb} (hdone : outcome ≠ .done) :
        BatchWalk last reply [] (reply, outcome) := by
      have hwalk : BatchWalk last reply []
          ({ reply with items := reply.items ++ payloadsIn [] }, outcome) :=
        .goes (fun x hx => absurd hx List.not_mem_nil) hdone
      simpa [payloadsIn] using hwalk
    cases fault with
    | none => exact hgoes (by simp)
    | some said => exact hgoes (by simp)
  | cons m ms ih =>
    intro reply
    rw [absorbBatch]
    by_cases herror : m.header.kind = nlmsgError
    · rw [if_pos herror]
      by_cases hcode : replyErrorCode m ≠ 0
      · simp only [if_pos hcode]
        exact .refuses _ (List.nil_append _).symm (by simp) ⟨herror, hcode⟩ rfl
      · have hnot : ¬ Refuses m := fun hr => hcode hr.2
        simp only [if_neg hcode]
        by_cases hlast : last ≤ m.header.seq
        · rw [if_pos hlast]
          have hm : Decisive last m := .inr (.inl ⟨⟨herror, not_not.mp hcode⟩, hlast⟩)
          have hwalk : BatchWalk last reply (m :: ms)
              ({ reply with items := reply.items ++ payloadsIn [] }, .done) :=
            .ends (List.nil_append _).symm (fun x hx => absurd hx List.not_mem_nil) hm hnot
          simpa [payloadsIn] using hwalk
        · rw [if_neg hlast]
          refine .cons ?_ ?_
          · rintro (hr | ⟨-, hl⟩ | hd)
            · exact hnot hr
            · exact hlast hl
            · exact absurd (herror.symm.trans hd) (by decide)
          · rw [if_pos (.inl herror), List.append_nil]
            exact ih reply
    · rw [if_neg herror]
      by_cases hdone : m.header.kind = nlmsgDone
      · rw [if_pos hdone]
        have hwalk : BatchWalk last reply (m :: ms)
            ({ reply with items := reply.items ++ payloadsIn [] }, .done) :=
          .ends (List.nil_append _).symm (fun x hx => absurd hx List.not_mem_nil)
            (.inr (.inr hdone)) fun hr => herror hr.1
        simpa [payloadsIn] using hwalk
      · have hends : ¬ Ends m := fun he => he.elim herror hdone
        rw [if_neg hdone]
        refine .cons (fun hd => hends (ends_of_decisive hd)) ?_
        rw [if_neg hends]
        exact ih _

theorem not_refuses_of_acknowledges (h : Acknowledges m) : ¬ Refuses m :=
  fun hr => hr.2 h.2

theorem batch_cases (hw : w.Kept) (h : Lawful w t) (hc : Calm w t) {before after : ℕ}
    (hop : t.op = .batch before after) (he : e.arrival = .datagram 0 bytes none)
    (hI : AwaitsBatch w t (e :: seen) reply) :
    (e = .answer w.turns bytes none ∧ ∀ m ∈ (messagesOf bytes).1, m ∈ w.own t ∧
      (Decisive (w.lastAcked t) m → Refuses m ∨
        Acknowledges m ∧ w.lastAcked t ≤ m.header.seq)) ∨
    ((∀ m ∈ (messagesOf bytes).1, ¬ Decisive (w.lastAcked t) m) ∧
      e.offered w.turns = payloadsIn (messagesOf bytes).1 ∧ e.of w.turns = none ∧
      e.stops w.turns (w.lastAcked t) t.op = false) := by
  rcases Event.kernel_cases he with rfl | ⟨k, rfl⟩
  · refine .inr ⟨fun m hm hd => ?_, rfl, rfl, rfl⟩
    exact (hw.unsolicited h hI.head m hm).2 (ends_of_decisive hd)
  · by_cases hk : k = w.turns
    · subst hk
      refine .inl ⟨rfl, fun m hm => ⟨mem_own hI.head hm, ?_⟩⟩
      rintro (hd | hd | hd)
      · exact .inl hd
      · exact .inr hd
      · have hanswer := (hw.own_prefix h).subset (mem_own hI.head hm)
        obtain ⟨⟨flags, initial, hrequest, -⟩, -⟩ := h.answers.dones m hanswer hd
        rw [hop] at hrequest
        exact absurd hrequest (by simp)
    · have hstops : (Event.answer k bytes none).stops w.turns (w.lastAcked t) t.op = false := by
        simp [Event.stops, hk]
      have hacks : ∀ m ∈ (messagesOf bytes).1, Acknowledges m := by
        refine hI.acknowledged k bytes none ?_ hk
        rw [List.takeWhile_cons_of_pos (by rw [hstops]; rfl)]
        exact List.mem_cons_self ..
      refine .inr ⟨fun m hm hd => ?_, ?_, if_neg hk, hstops⟩
      · have hlast := lastAcked_new hc.new
        have hstale := (hw.stale h hI.head hk m hm).2
        rcases hd with hd | ⟨-, hd⟩ | hd
        · exact not_refuses_of_acknowledges (hacks m hm) hd
        · omega
        · exact absurd ((hacks m hm).1.symm.trans hd) (by decide)
      · have hnone : payloadsIn (messagesOf bytes).1 = [] := by
          rw [payloadsIn, List.map_eq_nil_iff, List.filter_eq_nil_iff]
          intro m hm
          have hend : Ends m := .inl (hacks m hm).1
          simpa using hend
        rw [hnone]
        exact if_neg hk

theorem messagesIn_own (n : ℕ) (bytes : Bytes) (unread : Option ℕ) (seen : List Event) :
    messagesIn ((Event.answer n bytes unread :: seen).filterMap (Event.of n)) =
      (messagesOf bytes).1 ++ messagesIn (seen.filterMap (Event.of n)) := by
  simp [messagesIn, Event.of]

theorem payloadsIn_append (ms ns : List Message) :
    payloadsIn (ms ++ ns) = payloadsIn ms ++ payloadsIn ns := by
  simp [payloadsIn]

/-- What settles a batch : an acknowledgement from the last one asked for on, and no refusal before
it in the kernel's answer. -/
def Accepts (w : World) (t : Turn) (m : Message) : Prop :=
  Acknowledges m ∧ w.lastAcked t ≤ m.header.seq ∧ ∃ before after,
    messagesIn t.answer = before ++ m :: after ∧ ∀ e ∈ before, ¬ Refuses e

theorem batch_settled (hw : w.Kept) (h : Lawful w t) (hc : Calm w t) {before after : ℕ}
    (hop : t.op = .batch before after) (fuel size : ℕ) :
    Settled w t (Accepts w t)
      (collectLoop (fun reply bytes => absorbBatch (w.lastAcked t) (messagesOf bytes).2 reply
        (messagesOf bytes).1) false fuel size {} ((w.seen t).map Event.arrival)) := by
  have hwalk {reply : Reply} {bytes : Bytes} {result : Reply × Absorb}
      (hstep : absorbBatch (w.lastAcked t) (messagesOf bytes).2 reply (messagesOf bytes).1 =
        result) : BatchWalk (w.lastAcked t) reply (messagesOf bytes).1 result :=
    hstep ▸ absorbBatch_walk _ _ _ _
  refine collectLoop_rule Event.arrival (I := AwaitsBatch w t) (Q := Settled w t _) ?_ ?_ ?_ ?_ ?_
    (w.seen t) fuel size {} ⟨⟨rfl, [], rfl, List.Sublist.refl _⟩, ?_, [], by simp, ?_⟩
  · exact fun hI _ => .giveUp fun hne => absurd hI.unrefused hne
  · intro e seen reply sender bytes he hsender hI
    obtain ⟨port, rfl⟩ := Event.foreign_of_arrival he hsender
    refine ⟨hI.toWaits.dropped, fun k bytes' unread hmem => ?_, hI.read⟩
    exact hI.acknowledged k bytes' unread (mem_takeWhile_cons rfl hmem)
  · intro e seen reply bytes reply' why he hI hstep
    refine .giveUp fun hne => ?_
    cases hwalk hstep with
    | @refuses pre post m _ _ hms hpre hm hcode =>
      have hmem : m ∈ (messagesOf bytes).1 := by simp [hms]
      rcases batch_cases hw h hc hop he hI with ⟨rfl, -⟩ | ⟨hnone, -⟩
      · exact ⟨m, hI.lastRead hmem, hm, hcode.symm⟩
      · exact absurd (.inl hm) (hnone m hmem)
    | goes hms hdone => exact absurd hI.unrefused hne
  · intro e seen reply bytes reply' he hI hstep
    cases hwalk hstep with
    | @ends pre post m hms hpre hm hnot =>
      have hmem : m ∈ (messagesOf bytes).1 := by simp [hms]
      rcases batch_cases hw h hc hop he hI with ⟨rfl, hown⟩ | ⟨hnone, -⟩
      · obtain ⟨hack, hlast⟩ := ((hown m hmem).2 hm).resolve_left hnot
        refine ⟨fun _ => ⟨m, hI.lastRead hmem, hack, hlast, ?_⟩,
          fun hne => absurd hI.unrefused hne, hI.payloads ?_⟩
        · obtain ⟨read, hread, later, hanswer⟩ := hI.read
          rw [messagesIn_own, hms] at hanswer
          refine ⟨read ++ pre, post ++ messagesIn (seen.filterMap (Event.of w.turns)) ++ later,
            by rw [hanswer]; simp, fun x hx => ?_⟩
          rcases List.mem_append.mp hx with hx | hx
          · exact hread x hx
          · exact fun hr => hpre x hx (.inl hr)
        · rw [show Event.offered w.turns (.answer w.turns bytes none) =
            payloadsIn (messagesOf bytes).1 from if_pos rfl, hms, payloadsIn_append]
          exact List.sublist_append_left _ _
      · exact absurd hm (hnone m hmem)
    | goes hms hdone => exact absurd rfl hdone
  · intro e seen reply bytes reply' he hI hstep
    simp only [Bool.false_eq_true, false_and, if_false]
    cases hwalk hstep with
    | goes hms hdone =>
      have hgoes : e.offered w.turns = payloadsIn (messagesOf bytes).1 ∧
          e.stops w.turns (w.lastAcked t) t.op = false ∧
          ∃ read, ReadTo t read (messagesIn (seen.filterMap (Event.of w.turns))) := by
        obtain ⟨read, hread, later, hanswer⟩ := hI.read
        rcases batch_cases hw h hc hop he hI with ⟨rfl, -⟩ | ⟨-, hoffered, hof, hstops⟩
        · have hstops : (Event.answer w.turns bytes none).stops w.turns (w.lastAcked t) t.op =
              false := by
            have hnone : ∀ m ∈ (messagesOf bytes).1, ¬ t.op.Decides (w.lastAcked t) m := by
              intro m hm hd
              rw [hop] at hd
              exact hms m hm (hd.imp_right .inl)
            simpa [Event.stops] using hnone
          rw [messagesIn_own] at hanswer
          refine ⟨if_pos rfl, hstops, read ++ (messagesOf bytes).1, fun x hx => ?_, later,
            by rw [hanswer]; simp⟩
          rcases List.mem_append.mp hx with hx | hx
          · exact hread x hx
          · exact fun hr => hms x hx (.inl hr)
        · rw [List.filterMap_cons_none hof] at hanswer
          exact ⟨hoffered, hstops, read, hread, later, hanswer⟩
      obtain ⟨hoffered, hstops, hread⟩ := hgoes
      refine ⟨hI.toWaits.next (by rw [hoffered]), fun k bytes' unread hmem => ?_, hread⟩
      exact hI.acknowledged k bytes' unread (mem_takeWhile_cons (by rw [hstops]; rfl) hmem)
  · exact hc.acknowledged before after hop
  · obtain ⟨later, hlater⟩ := hw.own_prefix h
    exact ⟨later, by simpa [World.own] using hlater.symm⟩

/-! ## One turn -/

theorem refused_mem_codes (hw : w.Kept) (h : Lawful w t) (hm : m ∈ w.own t) (hrefuses : Refuses m) :
    replyErrorCode m ∈ t.codes :=
  (List.of_mem_zip
    (h.answers.verdicts m ((hw.own_prefix h).subset hm) hrefuses.1)).2

theorem request_accepted (hw : w.Kept) (h : Lawful w t) {flags initial : ℕ}
    (hop : t.op = .request flags initial) (hm : m ∈ w.own t) (hnot : ¬ Refuses m) :
    ∀ c ∈ t.codes, c = 0 := by
  have hanswer := (hw.own_prefix h).subset hm
  by_cases hend : Ends m
  · rcases hend with herror | hdone
    · have hzero : replyErrorCode m = 0 := by
        by_contra hcode
        exact hnot ⟨herror, hcode⟩
      have hcoded := h.coded
      rw [hop, Op.count, List.length_eq_one_iff] at hcoded
      obtain ⟨code, hcode⟩ := hcoded
      have hzip := (List.of_mem_zip (h.answers.verdicts m hanswer herror)).2
      rw [hzero, hcode, List.mem_singleton] at hzip
      simp [hcode, ← hzip]
    · exact (h.answers.dones m hanswer hdone).2
  · exact h.answers.payloads flags initial hop m hanswer hend

theorem batch_accepted (hw : w.Kept) (h : Lawful w t) (hc : Calm w t)
    (hm : m ∈ w.own t) (hacc : Accepts w t m) : ∀ c ∈ t.codes, c = 0 := by
  obtain ⟨hack, hlast, before, after, hsplit, hbefore⟩ := hacc
  have hnumber : m.header.seq = (w.numbers t).getD t.op.lastAsked 0 := by
    have hasked := h.answers.asked m ((hw.own_prefix h).subset hm) hack
    rw [numbers_new hc.new, List.take_range'_of_length_ge t.op.lastAsked_lt,
      List.mem_range'_1] at hasked
    have hnew := lastAcked_new hc.new
    refine (le_antisymm ?_ hlast : m.header.seq = w.lastAcked t)
    omega
  by_contra hrefused
  push Not at hrefused
  obtain ⟨e, he, hrefuses⟩ :=
    h.answers.refusedFirst hrefused before m after hsplit hack hnumber
  exact hbefore e he hrefuses

theorem ownVerdict_of_settled (hw : w.Kept) (h : Lawful w t) {concludes : Message → Prop}
    (hs : Settled w t concludes (w.outcome t))
    (hconcludes : ∀ m ∈ w.own t, concludes m → t.op.Concludes (w.lastAcked t) m)
    (haccepted : ∀ m ∈ w.own t, concludes m → ∀ c ∈ t.codes, c = 0) : OwnVerdict w t := by
  refine ⟨fun hok => ?_, fun hok => ?_, fun hne => ?_, hs.payloads⟩
  · obtain ⟨m, hm, hc⟩ := hs.concluded hok
    exact haccepted m hm.mem_own hc
  · obtain ⟨m, hm, hc⟩ := hs.concluded hok
    exact ⟨m, hm, hconcludes m hm.mem_own hc⟩
  · obtain ⟨m, hm, hrefuses, hcode⟩ := hs.refused hne
    exact ⟨hcode ▸ refused_mem_codes hw h hm.mem_own hrefuses, m, hm, hrefuses, hcode⟩

theorem Settled.congr {concludes : Message → Prop} {outcome outcome' : Outcome}
    (hs : Settled w t concludes outcome) (hreply : outcome'.reply = outcome.reply)
    (hrest : outcome'.rest = outcome.rest)
    (hfailure : outcome'.failure = none → outcome.failure = none) :
    Settled w t concludes outcome' :=
  ⟨by rw [hrest]; exact fun hok => hs.concluded (hfailure hok),
    by rw [hreply, hrest]; exact hs.refused, by rw [hreply, hrest]; exact hs.payloads⟩

/-- In a calm turn the verdict is the operation's own. -/
theorem ownVerdict_of_calm (hw : w.Kept) (h : Lawful w t) (hc : Calm w t) : OwnVerdict w t := by
  cases hsent : t.unsent with
  | some why =>
    have hout : (w.outcome t).failure = some why ∧ (w.outcome t).reply = {} := by
      unfold World.outcome World.perform Socket.request Socket.sendBatch
      rw [hsent]
      cases t.op with
      | request => exact ⟨rfl, rfl⟩
      | batch => exact ⟨rfl, rfl⟩
    obtain ⟨hfail, hreply⟩ := hout
    refine ⟨fun hok => ?_, fun hok => ?_, fun hne => ?_, ?_⟩
    · rw [hfail] at hok
      exact absurd hok (by simp)
    · rw [hfail] at hok
      exact absurd hok (by simp)
    · rw [hreply] at hne
      exact absurd rfl hne
    · rw [hreply]
      exact List.nil_sublist _
  | none =>
    cases hop : t.op with
    | request flags initial =>
      have hnext : nextSeq w.socket.seq = w.socket.seq + 1 := by
        have hnew := hc.new
        rw [hop] at hnew
        exact (List.cons.inj (congrArg Prod.fst (takeSeqs_new 1 w.socket.seq hnew))).1
      have hs := request_settled hw h hc hop (((w.seen t).map Event.arrival).length + 1)
        (max initial 1)
      rw [← hnext] at hs
      refine ownVerdict_of_settled hw h (hs.congr ?_ ?_ ?_) (fun m _ hm => hm) fun m hm hcl => ?_
      · simp only [World.outcome, World.perform, hop, Socket.request, hsent]
        rfl
      · simp only [World.outcome, World.perform, hop, Socket.request, hsent]
        rfl
      · simp only [World.outcome, World.perform, hop, Socket.request, hsent]
        exact Option.map_eq_none_iff.mp
      · rw [hop] at hcl
        exact request_accepted hw h hop hm hcl.1
    | batch before after =>
      have hs := batch_settled hw h hc hop (((w.seen t).map Event.arrival).length + 1)
        (max replyInitial 1)
      have hout : Settled w t (Accepts w t) (w.outcome t) := by
        refine hs.congr ?_ ?_ ?_
        · simp only [World.outcome, World.perform, hop, Socket.sendBatch, hsent]
          rfl
        · simp only [World.outcome, World.perform, hop, Socket.sendBatch, hsent]
          rfl
        · simp only [World.outcome, World.perform, hop, Socket.sendBatch, hsent]
          exact fun hok => hok
      refine ownVerdict_of_settled hw h hout (fun m _ hacc => ?_) fun m hm hacc =>
        batch_accepted hw h hc hm hacc
      rw [hop]
      exact ⟨hacc.1, hacc.2.1⟩

end Turn

/-! ## Runs -/

/-- **Every verdict is the operation's own**, in a run of calm turns on a fresh socket : whatever is
given up on, and whenever the rest of its answer comes. -/
theorem verdicts_own (generic : Bool) (turns : List Turn)
    (hlawful : ∀ x ∈ Trace.steps World.step { socket := { generic := generic } } turns,
      Lawful x.1 x.2)
    (hcalm : ∀ x ∈ Trace.steps World.step { socket := { generic := generic } } turns,
      Calm x.1 x.2) :
    ∀ x ∈ Trace.steps World.step { socket := { generic := generic } } turns,
      OwnVerdict x.1 x.2 := by
  intro x hx
  have hkept : x.1.Kept :=
    Trace.forall_mem_states turns _ (World.Kept.fresh generic)
      (fun y hy hw => hw.step (hlawful y hy) (hcalm y hy).new) x.1
      (Trace.fst_mem_states World.step turns _ hx)
  exact ownVerdict_of_calm hkept (hlawful x hx) (hcalm x hx)

/-! ## Two runs -/

/-- An `NLMSG_ERROR` for a message, with the errno as netlink sends it and the header it echoes. -/
def errorFor (seq : UInt8) (code : Bytes) : Bytes :=
  [36, 0, 0, 0, 2, 0, 0, 0, seq, 0, 0, 0, 0, 0, 0, 0] ++ code ++
    [20, 0, 0, 0, 16, 0, 5, 0, seq, 0, 0, 0, 0, 0, 0, 0]

def doneFor (seq : UInt8) : Bytes :=
  [20, 0, 0, 0, 3, 0, 2, 0, seq, 0, 0, 0, 0, 0, 0, 0, 0, 0, 0, 0]

def refusal : Bytes := errorFor 2 [0xEF, 0xFF, 0xFF, 0xFF]

def givenUp (op : Op) (answer : Bytes) : Turn where
  op := op
  codes := [0]
  answer := [answer]
  unsent := none
  arrived := [.failed eAgain]

/-- The change after it, which the kernel refuses. What the first was answered comes ahead of
that. -/
def refusedAfter (late : Bytes) : Turn where
  op := .batch 0 0
  codes := [17]
  answer := [refusal]
  unsent := none
  arrived := [.answer 0 late none, .answer 1 refusal none]

theorem answers_one {n : ℕ} {c : ℤ} {m : Message} (hkind : m.header.kind = nlmsgError)
    (hseq : m.header.seq = n) (hcode : replyErrorCode m = c) :
    Answers (.batch 0 0) [n] [c] [m] := by
  refine ⟨?_, ?_, ?_, ?_, ?_, ?_⟩
  · simp [hseq]
  · simp [hseq, hcode]
  · simp [hseq, Op.lastAsked]
  · rintro ⟨c', hc', hne⟩ before m' after hsplit ⟨-, hack⟩ -
    obtain rfl := List.mem_singleton.mp hc'
    have hm : m' ∈ [m] := by rw [hsplit]; simp
    rw [List.mem_singleton.mp hm, hcode] at hack
    exact absurd hack hne
  · intro m' hm' hdone
    rw [List.mem_singleton.mp hm'] at hdone
    exact absurd (hkind.symm.trans hdone) (by decide)
  · exact fun flags initial hop => absurd hop (by simp)

theorem answers_done : Answers (.request 0x301 replyInitial) [1] [0] (messagesIn [doneFor 1]) := by
  have hdone : messagesIn [doneFor 1] = [⟨⟨20, 3, 2, 1, 0⟩, [0, 0, 0, 0]⟩] := by decide
  rw [hdone]
  refine ⟨by simp, by simp [nlmsgError], ?_, by simp, ?_, by simp⟩
  · simp [Acknowledges, nlmsgError]
  · exact fun m _ _ => ⟨⟨0x301, replyInitial, rfl, by decide⟩, by simp⟩

theorem lawful_late {op : Op} {late : Bytes} (hcount : op.count = 1)
    (hanswers : Answers op [1] [0] (messagesIn [late])) :
    ∀ x ∈ Trace.steps World.step {} [givenUp op late, refusedAfter late], Lawful x.1 x.2 := by
  have hseq : (World.step {} (givenUp op late)).socket.seq = 1 := by
    rw [seq_step (by simp [givenUp, hcount])]
    exact (Nat.zero_add _).trans hcount
  intro x hx
  simp only [Trace.steps, List.mem_cons, List.not_mem_nil, or_false] at hx
  rcases hx with rfl | rfl
  · refine ⟨hcount.symm, ?_, by simp [givenUp], by simp [givenUp], ?_⟩
    · have hnumbers : World.numbers {} (givenUp op late) = [1] := by
        rw [World.numbers, show (givenUp op late).op.count = 1 from hcount]
        rfl
      rw [hnumbers]
      exact hanswers
    · exact fun k => List.nil_prefix
  · refine ⟨rfl, ?_, by simp [refusedAfter], by simp [refusedAfter], fun k => ?_⟩
    · have hnumbers :
        World.numbers (World.step {} (givenUp op late)) (refusedAfter late) = [2] := by
        rw [World.numbers, hseq]
        rfl
      rw [hnumbers]
      have hrefusal : messagesIn [refusal] = [⟨⟨36, 2, 0, 2, 0⟩, refusal.drop 16⟩] := by decide
      rw [show (refusedAfter late).answer = [refusal] from rfl, hrefusal]
      exact answers_one rfl rfl (by decide)
    · by_cases h0 : k = 0
      · subst h0
        exact ⟨[], rfl⟩
      · by_cases h1 : k = 1
        · subst h1
          exact ⟨[], rfl⟩
        · simp [refusedAfter, Event.of, Ne.symm h0, Ne.symm h1]

/-- **The end of a dump that was given up on makes the next change succeed**, though the kernel
refused it. -/
theorem stale_done_accepts :
    (∀ x ∈ Trace.steps World.step {} [givenUp (.request 0x301 replyInitial) (doneFor 1),
      refusedAfter (doneFor 1)], Lawful x.1 x.2) ∧
    ∃ x ∈ Trace.steps World.step {} [givenUp (.request 0x301 replyInitial) (doneFor 1),
      refusedAfter (doneFor 1)], ¬ OwnVerdict x.1 x.2 := by
  refine ⟨lawful_late rfl answers_done, _, List.mem_cons_of_mem _ (List.mem_cons_self ..), ?_⟩
  intro h
  exact absurd (h.accepted (by decide)) (by decide)

/-- A change that was given up on leaves its acknowledgement, and the next one keeps its own
verdict. -/
theorem late_acknowledgement :
    ∃ steps, Trace.steps World.step {} [givenUp (.batch 0 0) (errorFor 1 [0, 0, 0, 0]),
      refusedAfter (errorFor 1 [0, 0, 0, 0])] = steps ∧ ∀ x ∈ steps, OwnVerdict x.1 x.2 := by
  have hmessages : messagesIn [errorFor 1 [0, 0, 0, 0]] =
      [⟨⟨36, 2, 0, 1, 0⟩, (errorFor 1 [0, 0, 0, 0]).drop 16⟩] := by decide
  refine ⟨_, rfl, verdicts_own false _ (lawful_late rfl ?_) ?_⟩
  · rw [hmessages]
    exact answers_one rfl rfl (by decide)
  · intro x hx
    simp only [Trace.steps, List.mem_cons, List.not_mem_nil, or_false] at hx
    rcases hx with rfl | rfl
    · refine ⟨by decide, fun flags initial hop => absurd hop (by simp [givenUp]), ?_⟩
      intro before after _ k bytes unread he
      exact absurd he List.not_mem_nil
    · refine ⟨by decide, fun flags initial hop => absurd hop (by simp [refusedAfter]), ?_⟩
      intro before after _ k bytes unread he hk
      have hseen := (List.takeWhile_sublist _).subset he
      rw [World.seen, List.mem_append] at hseen
      rcases hseen with hqueue | harrived
      · exact absurd hqueue List.not_mem_nil
      · simp only [refusedAfter, List.mem_cons, Event.answer.injEq, List.not_mem_nil,
          or_false] at harrived
        rcases harrived with ⟨-, rfl, -⟩ | ⟨rfl, -⟩
        · decide
        · exact absurd rfl hk

end Netcfgd.Netlink
