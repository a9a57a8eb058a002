import Houston.Instances
import Houston.Operations
import Houston.Refusal
import Houston.Speech
import Houston.Streaming

/-!
# The transcript of a stream

What the firmware says, and what becomes of the variables, is a function of the bytes that
it reads and of a little memory: the table, the variables, and what earlier packets have left
in `rxBuffer` behind the header. The function knows nothing of polls, of states of the
receiver, or of pieces in which the bytes arrive.

* `Store` — the memory; the table has at most five rows.
* `Store.converse` — **the firmware as a function** of a stream.
* `ReadStep.outcome` — one read: what was said, followed by what is still to be said, stays
  the same, and so does what the memory is going to be.
* `transcript` — every schedule that comes to an end has computed the function.
-/

namespace Houston

open Relation Polling Stuffing

variable {w v : Firmware} {es : List Entry} {bs : List Byte}

/-! ## The function -/

/-- What the firmware remembers from packet to packet. -/
@[ext] structure Store where
  rows : List Row
  vars : Ptr → BitVec 32
  /-- `rxBuffer`, behind the header -/
  body : List Byte
  rows_le : rows.length ≤ 5

theorem sixteen_le_announced (bs : List Byte) : 16 ≤ announced bs := by
  rw [announced]
  omega

/-- What is said of the header at the front. -/
def greeting (bs : List Byte) : List Saying :=
  if HeaderSealed bs then
    if announced bs ≤ kAlertBufSize then [.text "Received packet header" (by decide)]
    else [.text "Received packet too large" (by decide)]
  else []

namespace Store

/-- The records of the table, brought up to date. -/
def fresh (t : Store) : List LiveDataPacket := t.rows.map (Row.fresh t.vars)

theorem length_fresh_le (t : Store) : t.fresh.length ≤ 5 := by
  rw [fresh, List.length_map]
  exact t.rows_le

/-- The table is brought up to date. -/
def refresh (t : Store) : Store where
  rows := t.rows.map fun r => (r.fresh t.vars, r.2)
  vars := t.vars
  body := t.body
  rows_le := by
    rw [List.length_map]
    exact t.rows_le

/-- The record that a modify packet is taken to carry. -/
def record (t : Store) : LiveDataPacket := LiveDataPacket.ofBytes t.body

/-- The answer to a packet of a type, whose payload has been read. -/
def reply (type : Byte) (t : Store) : List Saying × Store :=
  if type = PacketID.requestLiveData.code then
    ([.text "Live Data Requested" (by decide), .response t.fresh t.length_fresh_le], t.refresh)
  else if type = PacketID.modify.code then
    (.text "Live Data Modify Received" (by decide) ::
        if mismatch t.record t.rows then [.text "Live Data Type Mismatch" (by decide)] else [],
      { t with vars := stored t.record t.rows t.vars })
  else ([], t)

/-- The rest of the packet at the front is read over what was there. -/
def load (bs : List Byte) (t : Store) : Store :=
  { t with body := (bs.drop 12).take (payloadSize bs + 4) ++ t.body.drop (payloadSize bs + 4) }

/-- What is said when the rest of the packet at the front has been read. -/
def judge (bs : List Byte) (t : Store) : List Saying × Store :=
  let checksums : List Saying :=
    [.number "CalculuatedCRC" (payloadChecksum bs) (by decide),
      .number "ReceivedCRC" (receivedChecksum bs) (by decide)]
  if Matches bs then
    (checksums ++ .text "Processing packet" (by decide) :: ((t.load bs).reply (packetTypeOf bs)).1,
      ((t.load bs).reply (packetTypeOf bs)).2)
  else (checksums ++ [.text "Payload checksum mismatch" (by decide)], t.load bs)

/-- **The firmware as a function**: what it says when it reads a stream, and the memory that
this leaves. It waits until more than a header has arrived. -/
def converse (t : Store) (bs : List Byte) : List Saying × Store :=
  if _ : 12 < bs.length then
    if Admits bs then
      if announced bs ≤ bs.length then
        (greeting bs ++ ((t.judge bs).1 ++
            ((t.judge bs).2.converse (bs.drop (announced bs))).1),
          ((t.judge bs).2.converse (bs.drop (announced bs))).2)
      else (greeting bs, t)
    else (greeting bs ++ (t.converse (bs.drop 12)).1, (t.converse (bs.drop 12)).2)
  else ([], t)
termination_by bs.length
decreasing_by
  all_goals
    have := sixteen_le_announced bs
    rw [List.length_drop]
    omega

theorem converse_of_le (t : Store) (hlen : bs.length ≤ 12) : t.converse bs = ([], t) := by
  rw [converse, dif_neg (Nat.not_lt.mpr hlen)]

theorem converse_nil (t : Store) : t.converse [] = ([], t) := t.converse_of_le (Nat.zero_le 12)

theorem converse_of_refused (t : Store) (hlen : 12 < bs.length) (hrefused : ¬ Admits bs) :
    t.converse bs =
      (greeting bs ++ (t.converse (bs.drop 12)).1, (t.converse (bs.drop 12)).2) := by
  rw [converse, dif_pos hlen, if_neg hrefused]

theorem converse_of_short (t : Store) (hlen : 12 < bs.length) (hadmits : Admits bs)
    (hshort : bs.length < announced bs) : t.converse bs = (greeting bs, t) := by
  rw [converse, dif_pos hlen, if_pos hadmits, if_neg (Nat.not_le.mpr hshort)]

theorem converse_of_admits (t : Store) (hadmits : Admits bs) (hle : announced bs ≤ bs.length) :
    t.converse bs = (greeting bs ++ ((t.judge bs).1 ++
        ((t.judge bs).2.converse (bs.drop (announced bs))).1),
      ((t.judge bs).2.converse (bs.drop (announced bs))).2) := by
  have hlen : 12 < bs.length :=
    Nat.lt_of_lt_of_le (by decide) (Nat.le_trans (sixteen_le_announced bs) hle)
  rw [converse, dif_pos hlen, if_pos hadmits, if_pos hle]

/-- Whatever is said of the header at the front is said first. -/
theorem converse_greeting (t : Store) (hlen : 12 < bs.length) :
    ∃ more, (t.converse bs).1 = greeting bs ++ more := by
  by_cases hadmits : Admits bs
  · by_cases hle : announced bs ≤ bs.length
    · exact ⟨_, congrArg Prod.fst (t.converse_of_admits hadmits hle)⟩
    · refine ⟨[], ?_⟩
      rw [t.converse_of_short hlen hadmits (Nat.lt_of_not_le hle), List.append_nil]
  · exact ⟨_, congrArg Prod.fst (t.converse_of_refused hlen hadmits)⟩

end Store

/-! ## One read -/

theorem sentFrames_append (trace more : List Event) :
    sentFrames (trace ++ more) = sentFrames trace ++ sentFrames more :=
  List.filterMap_append

theorem sent_send (c : Call) (w : Firmware) :
    sentFrames (w.send c).trace = sentFrames w.trace ++ [stuff c.packet] :=
  sentFrames_append w.trace _

/-- What the firmware remembers. -/
def Firmware.store (w : Firmware) : Store where
  rows := w.rows
  vars := w.vars
  body := w.rxBuffer.data.drop 12
  rows_le := by
    rw [length_rows]
    exact min_le_right _ _

theorem store_congr (hrows : v.rows = w.rows) (hvars : v.vars = w.vars)
    (hbuf : v.rxBuffer = w.rxBuffer) : v.store = w.store := by
  rw [Firmware.store]
  simp only [hrows, hvars, hbuf]
  rfl

/-- **The answer of `processPacket`** is the one of the function. -/
theorem process_reply (h : Registered w es) :
    sentFrames w.process.trace =
        sentFrames w.trace ++ (w.store.reply w.header.packetType).1.map Saying.frame ∧
      w.process.store = (w.store.reply w.header.packetType).2 := by
  rw [Store.reply]
  by_cases hrequest : w.header.packetType = PacketID.requestLiveData.code
  · have hlog : Registered w.log es := ⟨h.count, h.rows⟩
    have hprocess : w.process = w.log.respond := by rw [Firmware.process, if_pos hrequest]
    have hstore : w.log.respond.store = w.store.refresh := Store.ext (rows_respond hlog) rfl rfl
    rw [if_pos hrequest, hprocess, trace_respond, sentFrames_append, hstore]
    exact ⟨rfl, rfl⟩
  rw [if_neg hrequest]
  by_cases hmodify : w.header.packetType = PacketID.modify.code
  · rw [if_pos hmodify, trace_process hmodify, sentFrames_append]
    obtain ⟨-, hbuf, -⟩ := process_frame w
    refine ⟨?_, Store.ext ?_ (vars_process hmodify) (congrArg (fun b => b.data.drop 12) hbuf)⟩
    · show _ = _ ++ List.map _ (_ :: if mismatch w.record w.rows = true then _ else _)
      split_ifs <;> rfl
    · rw [Firmware.process, if_neg hrequest, if_pos hmodify, Firmware.modify, Firmware.scan]
      split_ifs <;> rfl
  · have hprocess : w.process = w.log := by rw [Firmware.process, if_neg hrequest, if_neg hmodify]
    rw [if_neg hmodify, hprocess, Firmware.log, sentFrames_append]
    exact ⟨rfl, rfl⟩

theorem data_read {off n : ℕ} (h : off + n ≤ 101) (hn : n ≤ w.incoming.length) :
    (w.read off n).rxBuffer.data =
      w.rxBuffer.data.take off ++ w.incoming.take n ++ w.rxBuffer.data.drop (off + n) := by
  have hlen : (w.incoming.take n).length = n := List.length_take_of_le hn
  have hfits : off + (w.incoming.take n).length ≤ 101 := by rwa [hlen]
  have hcopy : w.rxBuffer.memcpy off (w.incoming.take n) = some _ := Buffer.memcpy_eq_some hfits
  rw [Firmware.read, hcopy, Option.getD_some, Buffer.data_overwrite, hlen]

/-- **The read of a header** leaves the memory alone. -/
theorem greet_takeHeader (hlen : 12 < w.incoming.length) :
    sentFrames w.takeHeader.trace =
        sentFrames w.trace ++ (greeting w.incoming).map Saying.frame ∧
      w.takeHeader.store = w.store := by
  have hread := take_read (Nat.le_of_lt hlen)
  have hbody : (w.read 0 12).rxBuffer.data.drop 12 = w.rxBuffer.data.drop 12 := by
    rw [data_read (by decide) (Nat.le_of_lt hlen), List.take_zero, List.nil_append, Nat.zero_add,
      List.drop_left' (List.length_take_of_le (Nat.le_of_lt hlen))]
  have hbuf : w.takeHeader.rxBuffer = (w.read 0 12).rxBuffer := by
    rw [Firmware.takeHeader]
    split_ifs <;> rfl
  obtain ⟨hrows, hvars⟩ := frame_takeHeader w
  refine ⟨?_, Store.ext hrows hvars ?_⟩
  · rw [greeting, if_congr (headerSealed_congr hread).symm rfl rfl, ← announced_congr hread,
      Firmware.takeHeader]
    by_cases hsealed : HeaderSealed (w.read 0 12).rxBuffer.data
    · rw [if_pos hsealed, if_pos hsealed]
      by_cases hsmall : announced (w.read 0 12).rxBuffer.data ≤ kAlertBufSize
      · have hlt : 12 + payloadSize (w.read 0 12).rxBuffer.data + 4 < kAlertBufCOBSize :=
          Nat.lt_succ_of_le hsmall
        rw [if_pos hsmall, if_pos hlt]
        exact sent_send _ (w.read 0 12)
      · have hle : ¬ 12 + payloadSize (w.read 0 12).rxBuffer.data + 4 < kAlertBufCOBSize :=
          fun hlt => hsmall (Nat.le_of_lt_succ hlt)
        rw [if_neg hsmall, if_neg hle]
        exact sent_send _ (w.read 0 12)
    · rw [if_neg hsealed, if_neg hsealed]
      exact (List.append_nil _).symm
  · show w.takeHeader.rxBuffer.data.drop 12 = _
    rw [hbuf, hbody]
    rfl

/-- The two checksums depend on the packet only. -/
theorem checksums_congr {cs : List Byte} (h : bs.take (announced bs) = cs.take (announced bs)) :
    payloadChecksum bs = payloadChecksum cs ∧ receivedChecksum bs = receivedChecksum cs := by
  have hsize : payloadSize bs = payloadSize cs :=
    payloadSize_congr (take_twelve_of_take (Nat.le_trans (by decide) (sixteen_le_announced bs)) h)
  constructor
  · have hdrop := congrArg (fun l => (l.drop 12).take (payloadSize bs)) h
    have hmin : min (payloadSize bs) (announced bs - 12) = payloadSize bs := by
      rw [announced]
      omega
    simp only [List.drop_take, List.take_take, hmin] at hdrop
    rw [payloadChecksum, payloadChecksum, ← hsize, hdrop]
  · have hle : 12 + payloadSize bs + 4 ≤ announced bs := le_refl _
    rw [receivedChecksum, receivedChecksum, ← hsize, ← wordAt_take hle, h, wordAt_take hle]

section Payload

variable (h : Sound w es) (hstatus : w.dashboard.packetStatus = .headerReceived)
  (hlen : payloadSize w.rxBuffer.data + 4 ≤ w.incoming.length)
include h hstatus hlen

/-- The packet is read over what was there. -/
theorem data_loadPayload : w.loadPayload.rxBuffer.data =
    w.pending.take (announced w.pending) ++ w.rxBuffer.data.drop (announced w.pending) := by
  have htwelve := w.length_take_rxBuffer
  have hsize : announced w.pending = 12 + (payloadSize w.rxBuffer.data + 4) := by
    rw [announced, payloadSize_congr (take_pending hstatus), Nat.add_assoc]
  have hfits : 12 + (payloadSize w.rxBuffer.data + 4) ≤ 101 :=
    Nat.le_succ_of_le ((h.header hstatus).2)
  have hbuf : w.loadPayload.rxBuffer = (w.read 12 (payloadSize w.rxBuffer.data + 4)).rxBuffer :=
    rfl
  have hcut : w.pending.take (12 + (payloadSize w.rxBuffer.data + 4)) =
      w.rxBuffer.data.take 12 ++ w.incoming.take (payloadSize w.rxBuffer.data + 4) := by
    rw [List.take_add, take_pending hstatus, pending_of_received hstatus, List.drop_left' htwelve]
  rw [hbuf, data_read hfits hlen, hsize, hcut]

theorem store_loadPayload : w.loadPayload.store = w.store.load w.pending := by
  have htwelve := w.length_take_rxBuffer
  have hsize : payloadSize w.pending = payloadSize w.rxBuffer.data :=
    payloadSize_congr (take_pending hstatus)
  refine Store.ext rfl rfl ?_
  show w.loadPayload.rxBuffer.data.drop 12 = _ ++ (w.rxBuffer.data.drop 12).drop _
  have hfits : 12 + (payloadSize w.rxBuffer.data + 4) ≤ 101 :=
    Nat.le_succ_of_le ((h.header hstatus).2)
  have hbuf : w.loadPayload.rxBuffer = (w.read 12 (payloadSize w.rxBuffer.data + 4)).rxBuffer :=
    rfl
  rw [hbuf, data_read hfits hlen, hsize, pending_of_received hstatus, List.append_assoc,
    List.drop_left' htwelve, List.drop_left' htwelve, List.drop_drop]

/-- **The read of the rest of a packet** is judged as the function judges it. -/
theorem judge_takePayload :
    sentFrames w.takePayload.trace =
        sentFrames w.trace ++ (w.store.judge w.pending).1.map Saying.frame ∧
      w.takePayload.store = (w.store.judge w.pending).2 := by
  have hdata := data_loadPayload h hstatus hlen
  have hstore := store_loadPayload h hstatus hlen
  have hsize : announced w.loadPayload.rxBuffer.data = announced w.pending := by
    rw [announced, payloadSize_loadPayload, announced, payloadSize_congr (take_pending hstatus)]
  have htake : w.loadPayload.rxBuffer.data.take (announced w.loadPayload.rxBuffer.data) =
      w.pending.take (announced w.loadPayload.rxBuffer.data) := by
    obtain ⟨-, hle, -, -⟩ := pending_takePayload h hstatus hlen
    rw [hsize, hdata, List.take_left' (List.length_take_of_le hle)]
  obtain ⟨hpayload, hreceived⟩ := checksums_congr htake
  have hfront : w.loadPayload.rxBuffer.data.take 12 = w.pending.take 12 :=
    (take_loadPayload w).trans (take_pending hstatus).symm
  have hreport : sentFrames w.loadPayload.report.trace = sentFrames w.trace ++
      List.map Saying.frame [.number "CalculuatedCRC" (payloadChecksum w.pending) (by decide),
        .number "ReceivedCRC" (receivedChecksum w.pending) (by decide)] := by
    rw [← hpayload, ← hreceived, Firmware.report, sent_send, sent_send, List.append_assoc]
    rfl
  obtain ⟨hrows, hvars⟩ := frame_received w
  have hbuf := rxBuffer_received w
  have hreceivedStore : w.received.2.store = w.store.load w.pending := by
    have hrows' : w.loadPayload.rows = w.rows := rfl
    have hvars' : w.loadPayload.vars = w.vars := rfl
    rw [← hstore, store_congr (hrows.trans hrows'.symm) (hvars.trans hvars'.symm) hbuf]
  rw [Store.judge, Firmware.takePayload]
  by_cases hsum : Matches w.pending
  · have hsame : payloadChecksum w.loadPayload.rxBuffer.data =
        receivedChecksum w.loadPayload.rxBuffer.data := by
      rw [hpayload, hreceived]
      exact hsum
    have hrun : w.received = (true, w.loadPayload.report.send (.alert (literal "Processing packet"))) :=
      if_pos hsame
    have htype : w.received.2.header.packetType = packetTypeOf w.pending := by
      rw [Firmware.header, hbuf, packetTypeOf, DashboardPacketHeader.ofBytes_congr hfront]
    obtain ⟨hsent, hanswer⟩ := process_reply h.table.received
    rw [htype, hreceivedStore] at hsent hanswer
    rw [if_pos (show w.received.1 = true by rw [hrun]), if_pos hsum, hsent, hanswer]
    refine ⟨?_, rfl⟩
    rw [hrun, sent_send, hreport]
    simp only [List.append_assoc, List.map_cons, List.map_nil, List.cons_append, List.nil_append]
    rfl
  · have hdiffer : ¬ payloadChecksum w.loadPayload.rxBuffer.data =
        receivedChecksum w.loadPayload.rxBuffer.data := by
      rw [hpayload, hreceived]
      exact hsum
    have hrun : w.received =
        (false, w.loadPayload.report.send (.alert (literal "Payload checksum mismatch"))) :=
      if_neg hdiffer
    rw [if_neg (show ¬ w.received.1 = true by rw [hrun]; exact Bool.false_ne_true), if_neg hsum]
    refine ⟨?_, hreceivedStore⟩
    rw [hrun, sent_send, hreport, List.append_assoc, List.map_append]
    rfl

end Payload

/-! ## The stream -/

/-- How much has been said already of what is still to be read: when a header was accepted, that
was said. -/
def Firmware.greeted (w : Firmware) : ℕ :=
  if w.dashboard.packetStatus = .headerReceived then 1 else 0

/-- What was said and what is still to be said, and the memory that this is going to leave. -/
def Firmware.outcome (w : Firmware) : List (List Byte) × Store :=
  (sentFrames w.trace ++
      ((w.store.converse w.pending).1.drop w.greeted).map Saying.frame,
    (w.store.converse w.pending).2)

theorem greeted_of_waiting (h : w.dashboard.packetStatus = .waiting) : w.greeted = 0 := by
  rw [Firmware.greeted, h]
  rfl

theorem greeting_of_admits (hadmits : Admits bs) :
    greeting bs = [.text "Received packet header" (by decide)] := by
  rw [greeting, if_pos hadmits.1, if_pos hadmits.2]

/-- **One read** does not change the outcome. -/
theorem ReadStep.outcome (h : Sound w es) (hstep : ReadStep w v) : v.outcome = w.outcome := by
  cases hstep with
  | header hstatus hlen =>
    obtain ⟨hsent, hstore⟩ := greet_takeHeader hlen
    obtain ⟨hcase, -⟩ := pending_takeHeader hstatus hlen
    have hpending := pending_of_waiting hstatus
    have hlen' : 12 < w.pending.length := by rwa [hpending]
    have hstatus' := congrArg Dashboard.packetStatus (dashboard_takeHeader hlen)
    rw [← hpending] at hsent hstatus'
    rw [Firmware.outcome, Firmware.outcome, greeted_of_waiting hstatus, List.drop_zero, hsent,
      hstore]
    rcases hcase with ⟨hadmits, hsame⟩ | ⟨hrefused, hdrop⟩
    · -- the greeting has been said, and is the first of what was to be said
      have hgreeted : w.takeHeader.greeted = 1 := by
        rw [Firmware.greeted, hstatus', if_pos hadmits]
        rfl
      obtain ⟨more, hmore⟩ := w.store.converse_greeting hlen'
      rw [hgreeted, hsame, hmore, List.map_append, greeting_of_admits hadmits, List.append_assoc]
      rfl
    · -- twelve bytes are gone, and the rest of the stream is read as before
      have hwaiting : w.takeHeader.dashboard.packetStatus = .waiting := by
        rw [hstatus', if_neg hrefused, hstatus]
      rw [greeted_of_waiting hwaiting, List.drop_zero, hdrop,
        w.store.converse_of_refused hlen' hrefused, List.map_append, List.append_assoc]
  | payload hstatus hlen =>
    obtain ⟨hsent, hstore⟩ := judge_takePayload h hstatus hlen
    obtain ⟨hadmits, hle, hpending, -⟩ := pending_takePayload h hstatus hlen
    have hgreeted : w.greeted = 1 := if_pos hstatus
    rw [Firmware.outcome, Firmware.outcome, greeted_of_waiting (status_takePayload w), hgreeted,
      hsent, hstore, hpending, w.store.converse_of_admits hadmits hle, greeting_of_admits hadmits,
      List.drop_zero, List.cons_append, List.drop_one, List.tail_cons, List.nil_append,
      List.map_append, List.append_assoc]

theorem steps_outcome (h : Sound w es) (hlistening : w.Listening)
    (hsteps : ReflTransGen ReadStep w v) : v.outcome = w.outcome := by
  induction hsteps with
  | refl => rfl
  | tail hsteps hstep ih =>
    obtain ⟨-, hsound, -⟩ := steps_parse h hlistening hsteps
    exact (hstep.outcome hsound).trans ih

/-- When nothing is left to be read, nothing is left to be said. -/
theorem outcome_of_stuck (h : Sound w es) (hlistening : w.Listening)
    (hstuck : receiver.Stuck w) : w.outcome = (sentFrames w.trace, w.store) := by
  suffices hnil : (w.store.converse w.pending).1.drop w.greeted = [] ∧
      (w.store.converse w.pending).2 = w.store by
    rw [Firmware.outcome, hnil.1, hnil.2, List.map_nil, List.append_nil]
  rcases Nat.lt_or_ge 12 w.pending.length with hlen | hlen
  · rcases hlistening with hstatus | hstatus
    · rw [pending_of_waiting hstatus] at hlen
      exact absurd (.header hstatus hlen) (hstuck _)
    · -- a header was accepted, and the rest of its packet has not come in
      have hfront := take_pending hstatus
      have hadmits : Admits w.pending := (admits_congr hfront).mpr (h.header hstatus)
      have hincoming : w.incoming.length < payloadSize w.rxBuffer.data + 4 :=
        Nat.lt_of_not_le fun hle => hstuck _ (.payload hstatus hle)
      have hshort : w.pending.length < announced w.pending := by
        rw [announced_congr hfront, announced, pending_of_received hstatus, List.length_append,
          w.length_take_rxBuffer]
        omega
      have hgreeted : w.greeted = 1 := if_pos hstatus
      rw [w.store.converse_of_short hlen hadmits hshort, greeting_of_admits hadmits, hgreeted]
      exact ⟨rfl, rfl⟩
  · rw [w.store.converse_of_le hlen]
    exact ⟨List.drop_nil, rfl⟩

/-- Every schedule that comes to an end has brought the outcome about. -/
theorem schedule_outcome (h : Reachable w) (slots : List Slot) :
    ∃ v, runSchedule slots w = some v ∧
      (Quiet v → (sentFrames v.trace, v.store) = (w.feed (stream slots)).outcome) := by
  obtain ⟨es, hsound⟩ := h.sound
  obtain ⟨v, hrun, hend, hsteps⟩ := schedule_run slots hsound
  have hlistening : (w.feed (stream slots)).Listening := h.listening
  obtain ⟨hlistening', -, -⟩ := steps_parse (hsound.feed _) hlistening hsteps.steps
  refine ⟨v, hrun, fun hquiet => ?_⟩
  rw [← outcome_of_stuck hend hlistening' ((quiet_iff hend).mp hquiet)]
  exact steps_outcome (hsound.feed _) hlistening hsteps.steps

/-- **The transcript of a stream**: in any state that the firmware can reach, however a stream
arrives and is polled for, when it comes to an end the frames that were sent and the memory
are those that the function computes of what was to be read and the stream. -/
theorem transcript (h : Reachable w) (slots : List Slot) :
    ∃ v, runSchedule slots w = some v ∧ (Quiet v →
      sentFrames v.trace = sentFrames w.trace ++
          ((w.store.converse (w.pending ++ stream slots)).1.drop w.greeted).map Saying.frame ∧
        v.store = (w.store.converse (w.pending ++ stream slots)).2) := by
  obtain ⟨v, hrun, hend⟩ := schedule_outcome h slots
  refine ⟨v, hrun, fun hquiet => Prod.mk.inj ?_⟩
  rw [← pending_feed]
  exact hend hquiet

/-- The transcript of a request that arrives in two pieces. -/
theorem transcript_request :
    ∃ v, runSchedule requestInPieces oneVariable = some v ∧ Quiet v ∧
      sentFrames v.trace = sentFrames oneVariable.trace ++
          ((oneVariable.store.converse (oneVariable.pending ++ request.bytes)).1.drop
            oneVariable.greeted).map Saying.frame ∧
        v.store = (oneVariable.store.converse (oneVariable.pending ++ request.bytes)).2 := by
  have hstream : stream requestInPieces = request.bytes := by decide +kernel
  obtain ⟨v, hrun, hsaid⟩ := transcript reachable_oneVariable requestInPieces
  have hquiet := reachable_oneVariable.quiet_of_endsWaiting hrun (by decide +kernel)
  rw [hstream] at hsaid
  exact ⟨v, hrun, hquiet, hsaid hquiet⟩

end Houston
