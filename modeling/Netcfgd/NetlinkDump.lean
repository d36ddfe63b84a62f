import Netcfgd.NetlinkSocket

/-!
# A dump that is the kernel's whole answer

What `ncfg_netlink_collect` of `src/sys/socket.c` returns for a dump, against what the kernel
answered. An answer (`Answer`) is what the kernel's datagrams hold up to the end of the one that
ends it, whatever other processes sent between them.

A dump succeeds when its answer arrives whole and unrefused, and its payloads are the answer's
(`collect_dump`). Two things an answer says of itself are not read : that the dump was interrupted
(`NLM_F_DUMP_INTR`), and what its `NLMSG_DONE` reports, and an acknowledgement ends a dump as an
`NLMSG_DONE` does. So what is returned is complete exactly when the answer says none of these
(`dump_complete_iff`).
-/

namespace Netcfgd.Netlink

/-! ## The kernel's answer -/

/-- The messages of a request's answer : its own number, or none. -/
def Mine (seq : ℕ) (m : Message) : Prop := m.header.seq = seq ∨ m.header.seq = 0

instance (seq : ℕ) : DecidablePred (Mine seq) := fun _ =>
  inferInstanceAs (Decidable (_ ∨ _))

def Ends (m : Message) : Prop := m.header.kind = nlmsgError ∨ m.header.kind = nlmsgDone

instance : DecidablePred Ends := fun _ => inferInstanceAs (Decidable (_ ∨ _))

def Refuses (m : Message) : Prop := m.header.kind = nlmsgError ∧ replyErrorCode m ≠ 0

instance : DecidablePred Refuses := fun _ => inferInstanceAs (Decidable (_ ∧ _))

/-- A datagram that can be read, and refuses nothing of `seq`. -/
structure Readable (seq limit : ℕ) (bytes : Bytes) (now : List Message) : Prop where
  someBytes : bytes ≠ []
  fits : bytes.length ≤ limit
  whole : messagesOf bytes = (now, none)
  unrefused : ∀ m ∈ now, Mine seq m → ¬ Refuses m

/-- `Answer seq limit arrivals ms` : the kernel's datagrams up to the one that ends the answer to
`seq`, none of them past `limit`, hold `ms`. -/
inductive Answer (seq limit : ℕ) : List Arrival → List Message → Prop
  | foreign {sender : ℕ} {bytes : Bytes} {rest : List Arrival} {ms : List Message}
      (hsender : sender ≠ 0) (later : Answer seq limit rest ms) :
      Answer seq limit (.datagram sender bytes none :: rest) ms
  | more {bytes : Bytes} {now later : List Message} {rest : List Arrival}
      (hread : Readable seq limit bytes now) (hends : ∀ m ∈ now, Mine seq m → ¬ Ends m)
      (hlater : Answer seq limit rest later) :
      Answer seq limit (.datagram 0 bytes none :: rest) (now ++ later)
  | last {bytes : Bytes} {now : List Message} {rest : List Arrival}
      (hread : Readable seq limit bytes now) (hends : ∃ m ∈ now, Mine seq m ∧ Ends m) :
      Answer seq limit (.datagram 0 bytes none :: rest) now

/-- The payloads of the messages that are of a dump. -/
def payloads (seq : ℕ) (ms : List Message) : List Bytes :=
  (ms.filter fun m => Mine seq m ∧ ¬ Ends m).map Message.payload

/-- `NLM_F_DUMP_INTR`. -/
def nlmFDumpIntr : ℕ := 0x10

/-- What an `NLMSG_DONE` reports is no error. -/
def DoneReportsSuccess (m : Message) : Prop :=
  m.payload.length < 4 ∨ littleEndian (m.payload.take 4) = 0

instance : DecidablePred DoneReportsSuccess := fun _ => inferInstanceAs (Decidable (_ ∨ _))

/-- What an answer has to say of itself for a dump to be whole : none of it was interrupted, an
`NLMSG_DONE` ended it, and each reports success. -/
structure Sound (seq : ℕ) (ms : List Message) : Prop where
  uninterrupted : ∀ m ∈ ms, Mine seq m → m.header.flags &&& nlmFDumpIntr = 0
  ended : ∃ m, (ms.find? fun m => Mine seq m ∧ Ends m) = some m ∧ m.header.kind = nlmsgDone
  succeeded : ∀ m ∈ ms, Mine seq m → m.header.kind = nlmsgDone → DoneReportsSuccess m

/-- The items of a dump are the kernel's whole answer to `seq`. -/
def Complete (seq limit : ℕ) (arrivals : List Arrival) (items : List Bytes) : Prop :=
  ∃ ms, Answer seq limit arrivals ms ∧ items = payloads seq ms ∧ Sound seq ms

theorem payloads_append (seq : ℕ) (ms ns : List Message) :
    payloads seq (ms ++ ns) = payloads seq ms ++ payloads seq ns := by
  simp [payloads]

/-- Arrivals hold one answer. -/
theorem Answer.unique {seq limit : ℕ} {arrivals : List Arrival} {ms ns : List Message}
    (h : Answer seq limit arrivals ms) (h' : Answer seq limit arrivals ns) : ms = ns := by
  induction h generalizing ns with
  | foreign hsender _ ih =>
    cases h' with
    | foreign _ later => exact ih later
    | more => exact absurd rfl hsender
    | last => exact absurd rfl hsender
  | more hread hends _ ih =>
    cases h' with
    | foreign hsender => exact absurd rfl hsender
    | more hread' _ hlater =>
      obtain rfl := (Prod.mk.inj (hread.whole.symm.trans hread'.whole)).1
      rw [ih hlater]
    | last hread' hends' =>
      obtain rfl := (Prod.mk.inj (hread.whole.symm.trans hread'.whole)).1
      obtain ⟨m, hm, hmine, hend⟩ := hends'
      exact absurd hend (hends m hm hmine)
  | last hread hends =>
    cases h' with
    | foreign hsender => exact absurd rfl hsender
    | more hread' hends' =>
      obtain rfl := (Prod.mk.inj (hread.whole.symm.trans hread'.whole)).1
      obtain ⟨m, hm, hmine, hend⟩ := hends
      exact absurd hend (hends' m hm hmine)
    | last hread' => exact (Prod.mk.inj (hread.whole.symm.trans hread'.whole)).1

/-! ## One datagram -/

theorem absorbReply_unrefused (seq : ℕ) : ∀ (ms : List Message) (reply : Reply) (outcome : Absorb),
    (∀ m ∈ ms, Mine seq m → ¬ Refuses m) →
    absorbReply seq none reply outcome ms =
      ({ reply with items := reply.items ++ payloads seq ms },
        if ∃ m ∈ ms, Mine seq m ∧ Ends m then .done else outcome) := by
  intro ms
  induction ms with
  | nil => simp [absorbReply, payloads]
  | cons m ms ih =>
    intro reply outcome hms
    have hrest :=
      fun reply outcome => ih reply outcome fun n hn => hms n (List.mem_cons_of_mem _ hn)
    have hm := hms m (List.mem_cons_self ..)
    rw [absorbReply]
    by_cases hmine : Mine seq m
    · have hskip : ¬ (m.header.seq ≠ seq ∧ m.header.seq ≠ 0) := by
        rintro ⟨h1, h2⟩
        exact hmine.elim h1 h2
      rw [if_neg hskip]
      by_cases herror : m.header.kind = nlmsgError
      · have hcode : replyErrorCode m = 0 := by
          by_contra hcode
          exact hm hmine ⟨herror, hcode⟩
        have hend : Ends m := .inl herror
        simp [herror, hcode, hrest, payloads, hmine, hend]
      · by_cases hdone : m.header.kind = nlmsgDone
        · have hend : Ends m := .inr hdone
          rw [if_neg herror, if_pos hdone]
          simp [hrest, payloads, hmine, hend]
        · have hend : ¬ Ends m := fun h => h.elim herror hdone
          simp [herror, hdone, hrest, payloads, hmine, hend]
    · have hskip : m.header.seq ≠ seq ∧ m.header.seq ≠ 0 := by
        simpa [Mine] using hmine
      simp [hskip, hrest, payloads, hmine]

theorem absorbReply_bad (seq : ℕ) (fault : Option String) : ∀ (ms : List Message) (reply : Reply)
    (outcome : Absorb), (fault ≠ none ∨ ∃ m ∈ ms, Mine seq m ∧ Refuses m) →
    ∃ reply' why, absorbReply seq fault reply outcome ms = (reply', .bad why) := by
  intro ms
  induction ms with
  | nil =>
    intro reply outcome hbad
    cases fault with
    | none => simp at hbad
    | some said => exact ⟨_, _, rfl⟩
  | cons m ms ih =>
    intro reply outcome hbad
    rw [absorbReply]
    have hskip : ¬ (Mine seq m ∧ Refuses m) →
        (fault ≠ none ∨ ∃ n ∈ ms, Mine seq n ∧ Refuses n) := by
      intro hm
      rcases hbad with hfault | ⟨n, hn, hrefuses⟩
      · exact .inl hfault
      · rcases List.mem_cons.mp hn with rfl | hn
        · exact absurd hrefuses hm
        · exact .inr ⟨n, hn, hrefuses⟩
    by_cases hmine : m.header.seq ≠ seq ∧ m.header.seq ≠ 0
    · rw [if_pos hmine]
      exact ih _ _ (hskip fun h => h.1.elim hmine.1 hmine.2)
    · rw [if_neg hmine]
      by_cases herror : m.header.kind = nlmsgError
      · rw [if_pos herror]
        by_cases hcode : replyErrorCode m ≠ 0
        · exact ⟨_, _, if_pos hcode⟩
        · simp only [if_neg hcode]
          exact ih _ _ (hskip fun h => hcode h.2.2)
      · have hrefuses : ¬ (Mine seq m ∧ Refuses m) := fun h => herror h.2.1
        rw [if_neg herror]
        by_cases hdone : m.header.kind = nlmsgDone
        · rw [if_pos hdone]
          exact ih _ _ (hskip hrefuses)
        · rw [if_neg hdone]
          exact ih _ _ (hskip hrefuses)

/-! ## The loop -/

section Loop

variable {seq limit : ℕ}

/-- `absorb_reply`, as the loop of a dump calls it. -/
abbrev absorbDump (seq : ℕ) (reply : Reply) (bytes : Bytes) : Reply × Absorb :=
  absorbReply seq (messagesOf bytes).2 reply .more (messagesOf bytes).1

theorem absorbDump_readable {bytes : Bytes} {now : List Message}
    (h : Readable seq limit bytes now) (reply : Reply) :
    absorbDump seq reply bytes = ({ reply with items := reply.items ++ payloads seq now },
      if ∃ m ∈ now, Mine seq m ∧ Ends m then .done else .more) := by
  rw [absorbDump, h.whole]
  exact absorbReply_unrefused seq now reply .more h.unrefused

theorem readable_of_absorbDump {bytes : Bytes} (hbytes : bytes ≠ []) (hfit : bytes.length ≤ limit)
    {reply reply' : Reply} {outcome : Absorb} (h : absorbDump seq reply bytes = (reply', outcome))
    (hbad : ∀ why, outcome ≠ .bad why) : Readable seq limit bytes (messagesOf bytes).1 := by
  by_cases hfail : (messagesOf bytes).2 ≠ none ∨
      ∃ m ∈ (messagesOf bytes).1, Mine seq m ∧ Refuses m
  · obtain ⟨reply'', why, hreply⟩ := absorbReply_bad seq _ (messagesOf bytes).1 reply .more hfail
    rw [absorbDump, hreply] at h
    exact absurd (Prod.mk.inj h).2.symm (hbad why)
  · push Not at hfail
    exact ⟨hbytes, hfit, Prod.ext rfl hfail.1, hfail.2⟩

/-- The run lemma : the loop collects the whole answer, however it arrives. -/
theorem collectLoop_of_answer {arrivals : List Arrival} {ms : List Message}
    (h : Answer seq limit arrivals ms) : ∀ {fuel size : ℕ} (reply : Reply),
    arrivals.length < fuel → max size maxReply = limit →
    (collectLoop (absorbDump seq) false fuel size reply arrivals).failure = none ∧
    (collectLoop (absorbDump seq) false fuel size reply arrivals).reply.items =
      reply.items ++ payloads seq ms := by
  induction h with
  | foreign hsender _ ih =>
    intro fuel size reply hfuel hlimit
    obtain ⟨fuel, rfl⟩ := Nat.exists_eq_succ_of_ne_zero (Nat.ne_zero_of_lt hfuel)
    rw [collectLoop_foreign hsender]
    exact ih _ (Nat.lt_of_succ_lt hfuel) hlimit
  | @more bytes now later rest hread hends _ ih =>
    intro fuel size reply hfuel hlimit
    obtain ⟨fuel, rfl⟩ := Nat.exists_eq_succ_of_ne_zero (Nat.ne_zero_of_lt hfuel)
    have hnone : ¬ ∃ m ∈ now, Mine seq m ∧ Ends m := by
      rintro ⟨m, hm, hmine, hend⟩
      exact hends m hm hmine hend
    rw [collectLoop_kernel hread.someBytes (hlimit ▸ hread.fits), absorbDump_readable hread,
      if_neg hnone]
    have hgrown : max (max size bytes.length) maxReply = limit := by
      have := hread.fits
      omega
    have hnext := ih { reply with items := reply.items ++ payloads seq now }
      (Nat.lt_of_succ_lt_succ hfuel) hgrown
    simp only [goOn, Bool.false_eq_true, false_and, if_false]
    rw [payloads_append, ← List.append_assoc]
    exact hnext
  | @last bytes now rest hread hends =>
    intro fuel size reply hfuel hlimit
    obtain ⟨fuel, rfl⟩ := Nat.exists_eq_succ_of_ne_zero (Nat.ne_zero_of_lt hfuel)
    rw [collectLoop_kernel hread.someBytes (hlimit ▸ hread.fits), absorbDump_readable hread,
      if_pos hends]
    exact ⟨rfl, rfl⟩

theorem answer_of_collectLoop : ∀ {arrivals : List Arrival} {fuel size : ℕ} {reply : Reply},
    max size maxReply = limit →
    (collectLoop (absorbDump seq) false fuel size reply arrivals).failure = none →
    ∃ ms, Answer seq limit arrivals ms := by
  intro arrivals
  induction arrivals with
  | nil =>
    intro fuel size reply _ hok
    obtain ⟨why, hwhy⟩ := collectLoop_nil (absorbDump seq) false fuel size reply
    rw [hwhy] at hok
    exact absurd hok (by simp [Outcome.giveUp])
  | cons a rest ih =>
    intro fuel size reply hlimit hok
    cases fuel with
    | zero => exact absurd hok (by simp [collectLoop, Outcome.giveUp])
    | succ fuel =>
      rcases arrival_cases a (max size maxReply) with ⟨sender, bytes, hsender, rfl⟩ |
        ⟨bytes, rfl, hbytes, hfit⟩ | ⟨hforeign, hkernel⟩
      · rw [collectLoop_foreign hsender] at hok
        obtain ⟨ms, hms⟩ := ih hlimit hok
        exact ⟨ms, .foreign hsender hms⟩
      · rw [collectLoop_kernel hbytes hfit] at hok
        cases hstep : absorbDump seq reply bytes with
        | mk reply' outcome =>
          rw [hstep] at hok
          have hbad : ∀ why, outcome ≠ .bad why := by
            rintro why rfl
            simp [goOn, Outcome.giveUp] at hok
          have hread := readable_of_absorbDump hbytes (hfit.trans_eq hlimit) hstep hbad
          by_cases hends : ∃ m ∈ (messagesOf bytes).1, Mine seq m ∧ Ends m
          · exact ⟨_, .last hread hends⟩
          · rw [absorbDump_readable hread, if_neg hends] at hstep
            obtain ⟨rfl, rfl⟩ := Prod.mk.inj hstep
            have hgrown : max (max size bytes.length) maxReply = limit := by
              omega
            simp only [goOn, Bool.false_eq_true, false_and, if_false] at hok
            obtain ⟨later, hlater⟩ := ih hgrown hok
            push Not at hends
            exact ⟨_, .more hread hends hlater⟩
      · obtain ⟨why, left, -, hfail⟩ := collectLoop_fails (absorbDump seq) false a hforeign hkernel
          (fuel + 1) reply rest
        rw [hfail] at hok
        exact absurd hok (by simp [Outcome.giveUp])

end Loop

/-! ## A dump -/

/-- The most one read of a dump can hold. -/
def dumpLimit (initial : ℕ) : ℕ := max (max initial 1) maxReply

/-- A dump is collected by the loop. -/
theorem collect_of_dump {flags : ℕ} (hdump : flags &&& nlmFDump ≠ 0) (seq initial : ℕ)
    (arrivals : List Arrival) : collect seq flags initial arrivals =
      collectLoop (absorbDump seq) false (arrivals.length + 1) (max initial 1) {} arrivals := by
  rw [collect, decide_eq_false hdump]

/-- **A dump succeeds exactly when its answer arrives whole and unrefused**, and gives out its
payloads, in order, each once. -/
theorem collect_dump {seq flags initial : ℕ} {arrivals : List Arrival}
    (hdump : flags &&& nlmFDump ≠ 0) :
    (collect seq flags initial arrivals).failure = none ↔
      ∃ ms, Answer seq (dumpLimit initial) arrivals ms ∧
        (collect seq flags initial arrivals).reply.items = payloads seq ms := by
  rw [collect_of_dump hdump]
  constructor
  · intro hok
    obtain ⟨ms, hms⟩ := answer_of_collectLoop rfl hok
    refine ⟨ms, hms, ?_⟩
    simpa using (collectLoop_of_answer hms {} (Nat.lt_succ_self _) rfl).2
  · rintro ⟨ms, hms, -⟩
    exact (collectLoop_of_answer hms {} (Nat.lt_succ_self _) rfl).1

/-- **What a dump returns as complete is the kernel's whole answer exactly when that answer says of
itself that it is** : that nothing interrupted it, and that an `NLMSG_DONE` with no error ended it.
Nothing that reads an answer asks. -/
theorem dump_complete_iff (seq flags initial : ℕ) (arrivals : List Arrival)
    (hdump : flags &&& nlmFDump ≠ 0) :
    ((collect seq flags initial arrivals).failure = none →
      Complete seq (dumpLimit initial) arrivals (collect seq flags initial arrivals).reply.items) ↔
      ∀ ms, Answer seq (dumpLimit initial) arrivals ms → Sound seq ms := by
  constructor
  · intro hcomplete ms hms
    have hok : (collect seq flags initial arrivals).failure = none := by
      rw [collect_of_dump hdump]
      exact (collectLoop_of_answer hms {} (Nat.lt_succ_self _) rfl).1
    obtain ⟨ns, hns, -, hsound⟩ := hcomplete hok
    rwa [hms.unique hns]
  · intro hsound hok
    obtain ⟨ms, hms, hitems⟩ := (collect_dump hdump).mp hok
    exact ⟨ms, hms, hitems, hsound ms hms⟩

/-! ## Two dumps of the links -/

/-- A link, of a dump with number one, and then the end of the dump. -/
def linkAndDone (linkFlags : UInt8) : Bytes :=
  [20, 0, 0, 0, 16, 0, linkFlags, 0, 1, 0, 0, 0, 0, 0, 0, 0, 97, 98, 99, 100] ++
    [20, 0, 0, 0, 3, 0, 2, 0, 1, 0, 0, 0, 0, 0, 0, 0, 0, 0, 0, 0]

def dumpArrivals (linkFlags : UInt8) : List Arrival :=
  [.datagram 77 [1, 2, 3] none, .datagram 0 (linkAndDone linkFlags) none]

def linkAndDoneMessages (linkFlags : ℕ) : List Message :=
  [⟨⟨20, 16, linkFlags, 1, 0⟩, [97, 98, 99, 100]⟩, ⟨⟨20, 3, 2, 1, 0⟩, [0, 0, 0, 0]⟩]

theorem answer_dumpArrivals (linkFlags : UInt8)
    (h : messagesOf (linkAndDone linkFlags) = (linkAndDoneMessages linkFlags.toNat, none)) :
    Answer 1 (dumpLimit replyInitial) (dumpArrivals linkFlags)
      (linkAndDoneMessages linkFlags.toNat) := by
  refine .foreign (by decide) (.last ⟨by simp [linkAndDone], ?_, h, ?_⟩ ?_)
  · exact (show 40 ≤ maxReply by decide).trans (le_max_right _ _)
  · simp [linkAndDoneMessages, Refuses, nlmsgError]
  · simp [linkAndDoneMessages, Mine, Ends, nlmsgDone]

/-- A link dump that nothing interrupted is whole. -/
theorem whole_dump : Complete 1 (dumpLimit replyInitial) (dumpArrivals 2)
    (collect 1 0x301 replyInitial (dumpArrivals 2)).reply.items := by
  have hanswer := answer_dumpArrivals 2 (by decide)
  refine (dump_complete_iff 1 0x301 replyInitial (dumpArrivals 2) (by decide)).mpr ?_ ?_
  · intro ms hms
    rw [hms.unique hanswer]
    exact ⟨by decide, ⟨_, rfl, rfl⟩, by decide⟩
  · exact (collect_dump (by decide)).mpr ⟨_, hanswer, by decide⟩

/-- **A dump the kernel says was interrupted is returned as complete.** -/
theorem interrupted_dump_returned :
    (collect 1 0x301 replyInitial (dumpArrivals 0x12)).failure = none ∧
      ¬ Complete 1 (dumpLimit replyInitial) (dumpArrivals 0x12)
        (collect 1 0x301 replyInitial (dumpArrivals 0x12)).reply.items := by
  have hanswer := answer_dumpArrivals 0x12 (by decide)
  refine ⟨(collect_dump (by decide)).mpr ⟨_, hanswer, by decide⟩, ?_⟩
  rintro ⟨ms, hms, -, hsound⟩
  rw [hms.unique hanswer] at hsound
  exact absurd hsound.uninterrupted (by decide)

end Netcfgd.Netlink
