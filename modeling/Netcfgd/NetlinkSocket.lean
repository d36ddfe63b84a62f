import Mathlib.Data.List.Basic
import Mathlib.Tactic.Linarith

/-!
# A netlink socket, and what it reads of an answer

`ncfg_netlink_collect` and `ncfg_netlink_collect_batch` of `src/sys/socket.c`, with the reading of
one datagram before them (`take_datagram`) and the walk over its messages (`absorb_reply`,
`absorb_batch`, and `ncfg_wire_messages_next` of `src/sys/wire.c`), and the two operations that send
a message and collect its answer, `ncfg_netlink_request_from` and `ncfg_netlink_send_batch`.

The socket is what its reads give, in order : a datagram with who sent it, or a failure. The read
that follows a peek finds the datagram that was peeked at, so the two tests the source makes a
second time are not here, and no allocation fails.
-/

namespace Netcfgd.Netlink

abbrev Bytes := List UInt8

/-! ## Messages on the wire -/

def littleEndian : Bytes → ℕ
  | [] => 0
  | b :: bs => b.toNat + 256 * littleEndian bs

/-- `ncfg_wire_header_t`. -/
structure Header where
  len : ℕ
  kind : ℕ
  flags : ℕ
  seq : ℕ
  pid : ℕ
  deriving DecidableEq

/-- `NCFG_WIRE_NLMSG_HDR_LEN`. -/
def headerLength : ℕ := 16

/-- `ncfg_wire_header_decode`, of sixteen bytes or more. -/
def headerDecode (bytes : Bytes) : Header where
  len := littleEndian (bytes.take 4)
  kind := littleEndian ((bytes.drop 4).take 2)
  flags := littleEndian ((bytes.drop 6).take 2)
  seq := littleEndian ((bytes.drop 8).take 4)
  pid := littleEndian ((bytes.drop 12).take 4)

/-- `ncfg_wire_message_t`. -/
structure Message where
  header : Header
  payload : Bytes
  deriving DecidableEq

/-- `ncfg_wire_align4`. -/
def align4 (length : ℕ) : ℕ := (length + 3) / 4 * 4

/-- What one step of `ncfg_wire_messages_next` finds. -/
inductive WireStep
  | ended
  | bad (said : String)
  | ok (message : Message) (rest : Bytes)

/-- `ncfg_wire_messages_next`. The last message may lack its padding. -/
def messagesNext (bytes : Bytes) : WireStep :=
  if bytes.length = 0 then .ended
  else if bytes.length < headerLength then
    .bad ("a netlink buffer ends " ++ toString bytes.length ++ " bytes into a 16-byte header")
  else
    let header := headerDecode bytes
    if header.len < headerLength then
      .bad ("a netlink message says it is " ++ toString header.len ++
        " bytes long, shorter than the 16-byte header it sits in")
    else if bytes.length < header.len then
      .bad ("a netlink message claims " ++ toString header.len ++ " bytes and the buffer holds " ++
        toString bytes.length)
    else
      .ok ⟨header, (bytes.take header.len).drop headerLength⟩
        (bytes.drop (min (align4 header.len) bytes.length))

/-- The walk over a datagram, at most `fuel` messages of it : its messages, and what stopped it when
that is not the end. -/
def walk : ℕ → Bytes → List Message × Option String
  | 0, _ => ([], none)
  | fuel + 1, bytes =>
    match messagesNext bytes with
    | .ended => ([], none)
    | .bad said => ([], some said)
    | .ok message rest => (message :: (walk fuel rest).1, (walk fuel rest).2)

def messagesOf (bytes : Bytes) : List Message × Option String := walk bytes.length bytes

/-! ## Acknowledgements and refusals -/

/-- `NLMSG_ERROR`. -/
def nlmsgError : ℕ := 2

/-- `NLMSG_DONE`. -/
def nlmsgDone : ℕ := 3

/-- `EPROTO`. -/
def eProto : ℤ := 71

/-- `ncfg_wire_error_code` : the errno an `NLMSG_ERROR` payload carries, negated as netlink sends
it. -/
def wireErrorCode (payload : Bytes) : Option ℤ :=
  if payload.length < 4 then none
  else
    let bits := littleEndian (payload.take 4)
    let code : ℤ := if bits < 2 ^ 31 then bits else bits - 2 ^ 32
    if code = -2 ^ 31 then none else some (-code)

/-- `reply_error_code`. -/
def replyErrorCode (message : Message) : ℤ := (wireErrorCode message.payload).getD eProto

/-- `ncfg_netlink_kind_text`. -/
def kindText : ℕ → Option String
  | 1 => some "NLMSG_NOOP"
  | 2 => some "NLMSG_ERROR"
  | 3 => some "NLMSG_DONE"
  | 4 => some "NLMSG_OVERRUN"
  | 16 => some "RTM_NEWLINK"
  | 17 => some "RTM_DELLINK"
  | 18 => some "RTM_GETLINK"
  | 19 => some "RTM_SETLINK"
  | 20 => some "RTM_NEWADDR"
  | 21 => some "RTM_DELADDR"
  | 22 => some "RTM_GETADDR"
  | 24 => some "RTM_NEWROUTE"
  | 25 => some "RTM_DELROUTE"
  | 26 => some "RTM_GETROUTE"
  | 32 => some "RTM_NEWRULE"
  | 33 => some "RTM_DELRULE"
  | 34 => some "RTM_GETRULE"
  | 36 => some "RTM_NEWQDISC"
  | 37 => some "RTM_DELQDISC"
  | 38 => some "RTM_GETQDISC"
  | 44 => some "RTM_NEWTFILTER"
  | 45 => some "RTM_DELTFILTER"
  | 46 => some "RTM_GETTFILTER"
  | 108 => some "RTM_NEWLINKPROP"
  | 109 => some "RTM_DELLINKPROP"
  | _ => none

/-- `ncfg_nft_message_text` : the messages of the nftables subsystem, ten. -/
def nftMessageText : ℕ → Option String
  | 2560 => some "NFT_MSG_NEWTABLE"
  | 2561 => some "NFT_MSG_GETTABLE"
  | 2562 => some "NFT_MSG_DELTABLE"
  | 2563 => some "NFT_MSG_NEWCHAIN"
  | 2564 => some "NFT_MSG_GETCHAIN"
  | 2565 => some "NFT_MSG_DELCHAIN"
  | 2566 => some "NFT_MSG_NEWRULE"
  | 2567 => some "NFT_MSG_GETRULE"
  | 2568 => some "NFT_MSG_DELRULE"
  | 2575 => some "NFT_MSG_NEWGEN"
  | 2576 => some "NFT_MSG_GETGEN"
  | _ => none

/-- `refused_request` : the name of the request, out of the kernel's echo of its header. -/
def refusedRequest (message : Message) : String :=
  if message.payload.length < 4 + headerLength then "a netlink request"
  else
    let original := (headerDecode (message.payload.drop 4)).kind
    ((kindText original).orElse fun _ => nftMessageText original).getD "a netlink request"

/-- What a failure says : a sentence, or what `ncfg_netlink_fail` puts an errno's text after. -/
inductive Failure
  | said (text : String)
  | call (doing : String) (code : ℤ)

/-- `ncfg_netlink_reply_t`. -/
structure Reply where
  items : List Bytes := []
  dropped : ℕ := 0
  refused : ℤ := 0

/-- `ncfg_netlink_reply_free`, and the count put back after it. -/
def Reply.givenUp (reply : Reply) : Reply := { reply with items := [] }

/-- `absorb_t`. -/
inductive Absorb
  | bad (why : Failure)
  | more
  | done

/-- `absorb_reply`, over the messages of a datagram and what stopped the walk over it. -/
def absorbReply (seq : ℕ) (fault : Option String) : Reply → Absorb → List Message → Reply × Absorb
  | reply, outcome, [] =>
    match fault with
    | some said => (reply, .bad (.said said))
    | none => (reply, outcome)
  | reply, outcome, message :: messages =>
    if message.header.seq ≠ seq ∧ message.header.seq ≠ 0 then
      absorbReply seq fault reply outcome messages
    else if message.header.kind = nlmsgError then
      let code := replyErrorCode message
      if code ≠ 0 then
        ({ reply with refused := code }, .bad (.call (refusedRequest message) code))
      else absorbReply seq fault reply .done messages
    else if message.header.kind = nlmsgDone then absorbReply seq fault reply .done messages
    else
      absorbReply seq fault { reply with items := reply.items ++ [message.payload] } outcome
        messages

/-- `absorb_batch`. Nothing asks whose message it is. -/
def absorbBatch (lastAcked : ℕ) (fault : Option String) : Reply → List Message → Reply × Absorb
  | reply, [] =>
    match fault with
    | some said => (reply, .bad (.said said))
    | none => (reply, .more)
  | reply, message :: messages =>
    if message.header.kind = nlmsgError then
      let code := replyErrorCode message
      if code ≠ 0 then
        ({ reply with refused := code }, .bad (.call (refusedRequest message) code))
      else if lastAcked ≤ message.header.seq then (reply, .done)
      else absorbBatch lastAcked fault reply messages
    else if message.header.kind = nlmsgDone then (reply, .done)
    else absorbBatch lastAcked fault
      { reply with items := reply.items ++ [message.payload] } messages

/-! ## Datagrams -/

/-- What the reads of a socket give : a read that fails, or a datagram, with what the read after its
peek fails with, if it does. -/
inductive Arrival
  | failed (errno : ℕ)
  | datagram (sender : ℕ) (bytes : Bytes) (unread : Option ℕ)
  deriving DecidableEq

/-- `EAGAIN`, when nothing came before the socket's receive timeout. -/
def eAgain : ℕ := 11

/-- `NCFG_NETLINK_REPLY_INITIAL`. -/
def replyInitial : ℕ := 32 * 1024

/-- `NCFG_NETLINK_MAX_REPLY`. -/
def maxReply : ℕ := 1024 * 1024

/-- What `take_datagram` leaves : the datagram and the buffer's size, the count of datagrams
dropped, and the socket. -/
structure Taken where
  read : Except Failure (Bytes × ℕ)
  dropped : ℕ
  rest : List Arrival

/-- `take_datagram`. A datagram that is too long stays where it is. -/
def takeDatagram (size dropped : ℕ) : List Arrival → Taken
  | [] => ⟨.error (.call "asking the size of the kernel's reply" eAgain), dropped, []⟩
  | .failed errno :: rest =>
    ⟨.error (.call "asking the size of the kernel's reply" errno), dropped, rest⟩
  | .datagram sender bytes unread :: rest =>
    if sender ≠ 0 then
      match unread with
      | some errno => ⟨.error (.call "reading the kernel's reply" errno), dropped, rest⟩
      | none => takeDatagram size (dropped + 1) rest
    else if size < bytes.length ∧ maxReply < bytes.length then
      ⟨.error (.said ("a netlink reply of " ++ toString bytes.length ++ " bytes is past the " ++
        toString maxReply ++ " this will hold")), dropped, .datagram sender bytes unread :: rest⟩
    else
      match unread with
      | some errno => ⟨.error (.call "reading the kernel's reply" errno), dropped, rest⟩
      | none =>
        if bytes = [] then ⟨.error (.said "a netlink datagram with no bytes in it"), dropped, rest⟩
        else ⟨.ok (bytes, max size bytes.length), dropped, rest⟩

/-- `NLM_F_DUMP`. -/
def nlmFDump : ℕ := 0x300

/-- What an operation leaves : the failure if it is one, its reply, and the socket. -/
structure Outcome where
  failure : Option Failure
  reply : Reply
  rest : List Arrival

def Outcome.giveUp (why : Failure) (reply : Reply) (rest : List Arrival) : Outcome :=
  ⟨some why, reply.givenUp, rest⟩

/-- The loop of `ncfg_netlink_collect` and `ncfg_netlink_collect_batch` : `absorb` takes a datagram,
and `single` says whether a reply with something in it is whole. -/
def collectLoop (absorb : Reply → Bytes → Reply × Absorb) (single : Bool) :
    ℕ → ℕ → Reply → List Arrival → Outcome
  | 0, _, reply, arrivals =>
    .giveUp (.call "asking the size of the kernel's reply" eAgain) reply arrivals
  | fuel + 1, size, reply, arrivals =>
    let taken := takeDatagram size reply.dropped arrivals
    let reply := { reply with dropped := taken.dropped }
    match taken.read with
    | .error why => .giveUp why reply taken.rest
    | .ok (bytes, size) =>
      match absorb reply bytes with
      | (reply, .bad why) => .giveUp why reply taken.rest
      | (reply, .done) => ⟨none, reply, taken.rest⟩
      | (reply, .more) =>
        if single ∧ reply.items ≠ [] then ⟨none, reply, taken.rest⟩
        else collectLoop absorb single fuel size reply taken.rest

/-- `ncfg_netlink_collect`. -/
def collect (seq flags initial : ℕ) (arrivals : List Arrival) : Outcome :=
  collectLoop
    (fun reply bytes => absorbReply seq (messagesOf bytes).2 reply .more (messagesOf bytes).1)
    (decide (flags &&& nlmFDump = 0)) (arrivals.length + 1) (max initial 1) {} arrivals

/-- `ncfg_netlink_collect_batch`. -/
def collectBatch (lastAcked initial : ℕ) (arrivals : List Arrival) : Outcome :=
  collectLoop
    (fun reply bytes => absorbBatch lastAcked (messagesOf bytes).2 reply (messagesOf bytes).1)
    false (arrivals.length + 1) (max initial 1) {} arrivals

/-! ## One round of the loop -/

section Round

variable {absorb : Reply → Bytes → Reply × Absorb} {single : Bool}

def goOn (absorb : Reply → Bytes → Reply × Absorb) (single : Bool) (fuel size : ℕ)
    (rest : List Arrival) : Reply × Absorb → Outcome
  | (reply, .bad why) => .giveUp why reply rest
  | (reply, .done) => ⟨none, reply, rest⟩
  | (reply, .more) =>
    if single ∧ reply.items ≠ [] then ⟨none, reply, rest⟩
    else collectLoop absorb single fuel size reply rest

theorem collectLoop_nil (absorb : Reply → Bytes → Reply × Absorb) (single : Bool)
    (fuel size : ℕ) (reply : Reply) :
    ∃ why, collectLoop absorb single fuel size reply [] = .giveUp why reply [] := by
  cases fuel with
  | zero => exact ⟨_, rfl⟩
  | succ fuel => exact ⟨_, rfl⟩

theorem collectLoop_foreign {sender : ℕ} (hsender : sender ≠ 0) (bytes : Bytes) (fuel size : ℕ)
    (reply : Reply) (rest : List Arrival) :
    collectLoop absorb single (fuel + 1) size reply (.datagram sender bytes none :: rest) =
      collectLoop absorb single (fuel + 1) size { reply with dropped := reply.dropped + 1 }
        rest := by
  simp only [collectLoop, takeDatagram, if_pos hsender]

theorem collectLoop_kernel {bytes : Bytes} {size : ℕ} (hbytes : bytes ≠ [])
    (hfit : bytes.length ≤ max size maxReply) (fuel : ℕ) (reply : Reply) (rest : List Arrival) :
    collectLoop absorb single (fuel + 1) size reply (.datagram 0 bytes none :: rest) =
      goOn absorb single fuel (max size bytes.length) rest (absorb reply bytes) := by
  have hlong : ¬ (size < bytes.length ∧ maxReply < bytes.length) := by
    rintro ⟨hsize, hmax⟩
    exact absurd hfit (by simp [hsize, hmax])
  simp only [collectLoop, takeDatagram, ne_eq, not_true_eq_false, if_false, if_neg hlong,
    if_neg hbytes, goOn]

theorem collectLoop_fails (absorb : Reply → Bytes → Reply × Absorb) (single : Bool) {size : ℕ}
    (a : Arrival)
    (hforeign : ∀ sender bytes, a = .datagram sender bytes none → sender = 0)
    (hkernel : ∀ bytes, a = .datagram 0 bytes none → bytes = [] ∨ max size maxReply < bytes.length)
    (fuel : ℕ) (reply : Reply) (rest : List Arrival) :
    ∃ why left, left <:+ a :: rest ∧
      collectLoop absorb single fuel size reply (a :: rest) = .giveUp why reply left := by
  have hrest : rest <:+ a :: rest := List.suffix_cons a rest
  cases fuel with
  | zero => exact ⟨_, _, List.suffix_rfl, rfl⟩
  | succ fuel =>
    rcases a with errno | ⟨sender, bytes, errno | _⟩
    · exact ⟨_, _, hrest, rfl⟩
    · obtain rfl := hforeign sender bytes rfl
      rcases hkernel bytes rfl with rfl | hlong
      · exact ⟨.said "a netlink datagram with no bytes in it", rest, hrest, by
          simp [collectLoop, takeDatagram]⟩
      · have hlong : size < bytes.length ∧ maxReply < bytes.length := by
          exact ⟨lt_of_le_of_lt (le_max_left _ _) hlong, lt_of_le_of_lt (le_max_right _ _) hlong⟩
        simp only [collectLoop, takeDatagram, ne_eq, not_true_eq_false, if_false, if_pos hlong]
        exact ⟨_, _, List.suffix_rfl, rfl⟩
    · by_cases hsender : sender ≠ 0
      · simp only [collectLoop, takeDatagram, if_pos hsender]
        exact ⟨_, _, hrest, rfl⟩
      · by_cases hlong : size < bytes.length ∧ maxReply < bytes.length
        · simp only [collectLoop, takeDatagram, if_neg hsender, if_pos hlong]
          exact ⟨_, _, List.suffix_rfl, rfl⟩
        · simp only [collectLoop, takeDatagram, if_neg hsender, if_neg hlong]
          exact ⟨_, _, hrest, rfl⟩

theorem arrival_cases (a : Arrival) (limit : ℕ) :
    (∃ sender bytes, sender ≠ 0 ∧ a = .datagram sender bytes none) ∨
    (∃ bytes, a = .datagram 0 bytes none ∧ bytes ≠ [] ∧ bytes.length ≤ limit) ∨
    ((∀ sender bytes, a = .datagram sender bytes none → sender = 0) ∧
      ∀ bytes, a = .datagram 0 bytes none → bytes = [] ∨ limit < bytes.length) := by
  by_cases hforeign : ∃ sender bytes, sender ≠ 0 ∧ a = .datagram sender bytes none
  · exact .inl hforeign
  · by_cases hkernel : ∃ bytes, a = .datagram 0 bytes none ∧ bytes ≠ [] ∧ bytes.length ≤ limit
    · exact .inr (.inl hkernel)
    · push Not at hforeign hkernel
      refine .inr (.inr ⟨fun sender bytes ha => ?_, fun bytes ha => ?_⟩)
      · by_contra hsender
        exact hforeign sender bytes hsender ha
      · by_cases hbytes : bytes = []
        · exact .inl hbytes
        · exact .inr (hkernel bytes ha hbytes)

/-- The rule of the loop : what `I` says of what is still to arrive and of the reply is kept by each
datagram the loop goes on after, and gives `Q` of each outcome it stops with. -/
theorem collectLoop_rule {E : Type*} (f : E → Arrival) {I : List E → Reply → Prop}
    {Q : Outcome → Prop}
    (hgive : ∀ {seen reply why left}, I seen reply → left <:+ seen.map f →
      Q (.giveUp why reply left))
    (hforeign : ∀ {e seen reply sender bytes}, f e = .datagram sender bytes none → sender ≠ 0 →
      I (e :: seen) reply → I seen { reply with dropped := reply.dropped + 1 })
    (hbad : ∀ {e seen reply bytes reply' why}, f e = .datagram 0 bytes none →
      I (e :: seen) reply → absorb reply bytes = (reply', .bad why) →
      Q (.giveUp why reply' (seen.map f)))
    (hdone : ∀ {e seen reply bytes reply'}, f e = .datagram 0 bytes none →
      I (e :: seen) reply → absorb reply bytes = (reply', .done) → Q ⟨none, reply', seen.map f⟩)
    (hmore : ∀ {e seen reply bytes reply'}, f e = .datagram 0 bytes none →
      I (e :: seen) reply → absorb reply bytes = (reply', .more) →
      if single ∧ reply'.items ≠ [] then Q ⟨none, reply', seen.map f⟩ else I seen reply') :
    ∀ (seen : List E) (fuel size : ℕ) (reply : Reply), I seen reply →
      Q (collectLoop absorb single fuel size reply (seen.map f)) := by
  intro seen
  induction seen with
  | nil =>
    intro fuel size reply hI
    obtain ⟨why, hwhy⟩ := collectLoop_nil absorb single fuel size reply
    rw [List.map_nil, hwhy]
    exact hgive hI (List.nil_suffix)
  | cons e seen ih =>
    intro fuel size reply hI
    rw [List.map_cons]
    cases fuel with
    | zero => exact hgive hI List.suffix_rfl
    | succ fuel =>
      rcases arrival_cases (f e) (max size maxReply) with ⟨sender, bytes, hsender, he⟩ |
        ⟨bytes, he, hbytes, hfit⟩ | ⟨hnotForeign, hnotKernel⟩
      · rw [he, collectLoop_foreign hsender]
        exact ih _ _ _ (hforeign he hsender hI)
      · rw [he, collectLoop_kernel hbytes hfit]
        cases hstep : absorb reply bytes with
        | mk reply' outcome =>
          cases outcome with
          | bad why => exact hbad he hI hstep
          | done => exact hdone he hI hstep
          | more =>
            have hnext := hmore he hI hstep
            by_cases hsingle : single ∧ reply'.items ≠ []
            · simpa only [goOn, if_pos hsingle] using hnext
            · rw [if_neg hsingle] at hnext
              simp only [goOn, if_neg hsingle]
              exact ih _ _ _ hnext
      · obtain ⟨why, left, hleft, hfail⟩ :=
          collectLoop_fails absorb single (f e) hnotForeign hnotKernel
            (fuel + 1) reply (seen.map f)
        rw [hfail]
        exact hgive hI hleft

end Round

/-! ## A socket and its operations -/

/-- `ncfg_netlink_t`, for what an operation reads of it. `generic` is `NETLINK_GENERIC`. -/
structure Socket where
  seq : ℕ := 0
  dropped : ℕ := 0
  generic : Bool := false

/-- `next_seq` : zero is the number of what nobody asked for. -/
def nextSeq (seq : ℕ) : ℕ :=
  let seq := (seq + 1) % 2 ^ 32
  if seq = 0 then 1 else seq

/-- The numbers `ncfg_netlink_take_seq` gives, one after another, and where it leaves the socket. -/
def takeSeqs : ℕ → ℕ → List ℕ × ℕ
  | 0, seq => ([], seq)
  | n + 1, seq => (nextSeq seq :: (takeSeqs n (nextSeq seq)).1, (takeSeqs n (nextSeq seq)).2)

def Socket.counted (socket : Socket) (outcome : Outcome) : Socket :=
  { socket with dropped := (socket.dropped + outcome.reply.dropped % 2 ^ 32) % 2 ^ 32 }

/-- `ncfg_netlink_request_from`. `unsent` is what the building or the sending of the message failed
with. -/
def Socket.request (socket : Socket) (flags initial : ℕ) (unsent : Option Failure)
    (arrivals : List Arrival) : Outcome × Socket :=
  let seq := nextSeq socket.seq
  let socket := { socket with seq := seq }
  match unsent with
  | some why => (⟨some why, {}, arrivals⟩, socket)
  | none =>
    let outcome := collect seq flags initial arrivals
    let failure := outcome.failure.map fun why =>
      if outcome.reply.refused ≠ 0 ∧ socket.generic then
        .call "a generic netlink request" outcome.reply.refused
      else why
    ({ outcome with failure := failure }, socket.counted outcome)

/-- `ncfg_netlink_send_batch`. -/
def Socket.sendBatch (socket : Socket) (lastAcked : ℕ) (unsent : Option Failure)
    (arrivals : List Arrival) : Outcome × Socket :=
  match unsent with
  | some why => (⟨some why, {}, arrivals⟩, socket)
  | none =>
    let outcome := collectBatch lastAcked replyInitial arrivals
    (outcome, socket.counted outcome)

end Netcfgd.Netlink
