import Houston.Delivery

/-!
# What the receiver finds in a stream

The receiver starts on a header, and takes as many bytes as the header announces; or
twelve, if it does not accept the header. `parse` is this reading of a stream, as a
function. Nothing else about the firmware has an influence on which packets are
processed.

* `parse` — the packets that the receiver finds in a stream.
* `ReadStep.parse` — one read: what was processed, followed by what is still to be found,
  stays the same.
* `schedule_parse` — any schedule that comes to an end has processed what `parse` finds.
-/

namespace Houston

open Relation Polling

variable {w v : Firmware} {es : List Entry} {bs cs : List Byte}

/-! ## The reading of a stream -/

/-- The size of the packet that the header at the front announces. -/
def announced (bs : List Byte) : ℕ := 12 + payloadSize bs + 4

/-- The receiver accepts the header at the front. -/
def Admits (bs : List Byte) : Prop := HeaderSealed bs ∧ announced bs ≤ kAlertBufSize

/-- The two checksums of the packet at the front are the same. -/
def Matches (bs : List Byte) : Prop := payloadChecksum bs = receivedChecksum bs

instance (bs : List Byte) : Decidable (Admits bs) := inferInstanceAs (Decidable (_ ∧ _))

instance (bs : List Byte) : Decidable (Matches bs) := inferInstanceAs (Decidable (_ = _))

/-- How many bytes the receiver takes when it starts on the header at the front. -/
def taken (bs : List Byte) : ℕ := if Admits bs then announced bs else 12

theorem twelve_le_taken (bs : List Byte) : 12 ≤ taken bs := by
  rw [taken, announced]
  split_ifs <;> omega

/-- The packet that the receiver finds at the front, if it finds one. -/
def found (bs : List Byte) : List (List Byte) :=
  if Admits bs ∧ Matches bs then [bs.take (taken bs)] else []

/-- **The packets that the receiver finds** in a stream. It waits until more than a
header has arrived. -/
def parse (bs : List Byte) : List (List Byte) :=
  if _ : 12 < bs.length ∧ taken bs ≤ bs.length then found bs ++ parse (bs.drop (taken bs)) else []
termination_by bs.length
decreasing_by
  have := twelve_le_taken bs
  rw [List.length_drop]
  omega

theorem parse_eq (hlen : 12 < bs.length) (htaken : taken bs ≤ bs.length) :
    parse bs = found bs ++ parse (bs.drop (taken bs)) := by
  rw [parse, dif_pos ⟨hlen, htaken⟩]

/-- Of a header that the receiver refuses only twelve bytes are gone. -/
theorem parse_of_refused (hlen : 12 < bs.length) (hrefused : ¬ Admits bs) :
    parse bs = parse (bs.drop 12) := by
  have htaken : taken bs = 12 := if_neg hrefused
  have hfound : found bs = [] := if_neg fun hboth => hrefused hboth.1
  rw [parse_eq hlen (by omega), hfound, htaken, List.nil_append]

/-- Too short a stream holds no packet. -/
theorem parse_eq_nil (h : bs.length ≤ 12 ∨ bs.length < taken bs) : parse bs = [] := by
  rw [parse, dif_neg]
  rintro ⟨hlen, htaken⟩
  rcases h with h | h
  · exact Nat.not_lt_of_le h hlen
  · exact Nat.not_lt_of_le htaken h

/-! ### What the reading looks at -/

theorem announced_congr (h : bs.take 12 = cs.take 12) : announced bs = announced cs := by
  rw [announced, announced, payloadSize_congr h]

/-- The receiver judges a header by its twelve bytes. -/
theorem admits_congr (h : bs.take 12 = cs.take 12) : Admits bs ↔ Admits cs := by
  rw [Admits, Admits, announced_congr h, headerSealed_congr h]

theorem taken_congr (h : bs.take 12 = cs.take 12) : taken bs = taken cs := by
  rw [taken, taken, announced_congr h]
  simp only [admits_congr h]

theorem take_twelve_of_take {n : ℕ} (hn : 12 ≤ n) (h : bs.take n = cs.take n) :
    bs.take 12 = cs.take 12 := by
  have htake := congrArg (List.take 12) h
  rwa [List.take_take, List.take_take, min_eq_left hn] at htake

/-- The checksums are about the bytes that the header announces. -/
theorem matches_congr (h : bs.take (announced bs) = cs.take (announced bs)) :
    Matches bs ↔ Matches cs := by
  have hsize : payloadSize bs = payloadSize cs :=
    payloadSize_congr (take_twelve_of_take (by rw [announced]; omega) h)
  have hpayload : (bs.drop 12).take (payloadSize bs) = (cs.drop 12).take (payloadSize bs) := by
    have hdrop := congrArg (fun l => (l.drop 12).take (payloadSize bs)) h
    simp only [announced, List.drop_take, List.take_take] at hdrop
    rwa [show min (payloadSize bs) (12 + payloadSize bs + 4 - 12) = payloadSize bs by omega] at hdrop
  have hsum : wordAt 32 4 bs (12 + payloadSize bs) = wordAt 32 4 cs (12 + payloadSize bs) := by
    rw [← wordAt_take (le_refl (12 + payloadSize bs + 4)), ← announced, h, announced,
      wordAt_take (le_refl _)]
  rw [Matches, Matches, payloadChecksum, payloadChecksum, receivedChecksum, receivedChecksum,
    ← hsize, hpayload, hsum]

/-! ## The firmware -/

/-- What the receiver has still to read, together with the header it has accepted. -/
def Firmware.pending (w : Firmware) : List Byte :=
  if w.dashboard.packetStatus = .headerReceived then w.rxBuffer.data.take 12 ++ w.incoming
  else w.incoming

theorem pending_of_waiting (h : w.dashboard.packetStatus = .waiting) : w.pending = w.incoming := by
  rw [Firmware.pending, h]
  exact if_neg (by decide)

theorem pending_of_received (h : w.dashboard.packetStatus = .headerReceived) :
    w.pending = w.rxBuffer.data.take 12 ++ w.incoming := if_pos h

theorem pending_feed (w : Firmware) (bytes : List Byte) :
    (w.feed bytes).pending = w.pending ++ bytes := by
  rw [Firmware.pending, Firmware.pending]
  show (if w.dashboard.packetStatus = .headerReceived then
    w.rxBuffer.data.take 12 ++ (w.incoming ++ bytes) else w.incoming ++ bytes) = _
  split_ifs
  · rw [List.append_assoc]
  · rfl

theorem Firmware.length_take_rxBuffer (w : Firmware) : (w.rxBuffer.data.take 12).length = 12 := by
  rw [List.length_take, w.rxBuffer.length_data]
  rfl

theorem take_pending (h : w.dashboard.packetStatus = .headerReceived) :
    w.pending.take 12 = w.rxBuffer.data.take 12 := by
  rw [pending_of_received h, List.take_left' w.length_take_rxBuffer]

/-! ### What is processed -/

theorem processed_sent (trace : List Event) (frame : List Byte) :
    processedPackets (trace ++ [.sent frame]) = processedPackets trace := by
  rw [processedPackets, List.filterMap_append]
  exact List.append_nil _

/-- Sending processes nothing. -/
theorem processed_send (c : Call) (w : Firmware) :
    processedPackets (w.send c).trace = processedPackets w.trace := processed_sent ..

/-- **Processing a packet** puts this packet on record, whatever it makes of it. -/
theorem processed_process (w : Firmware) :
    processedPackets w.process.trace = processedPackets w.trace ++ [w.packet] := by
  have hlog : processedPackets w.log.trace = processedPackets w.trace ++ [w.packet] := by
    rw [Firmware.log, processedPackets, List.filterMap_append]
    rfl
  rw [Firmware.process, ← hlog]
  split_ifs
  · rw [Firmware.respond, Firmware.trace_emit, processed_sent]
    exact processed_send _ w.log
  · rw [Firmware.modify, Firmware.scan]
    split_ifs
    · rw [processed_send]
      exact processed_send _ w.log
    · exact processed_send _ w.log
  · rfl

theorem processed_received (w : Firmware) :
    processedPackets w.received.2.trace = processedPackets w.trace := by
  rw [Firmware.received, Firmware.check, Firmware.report]
  split_ifs
  · rw [processed_send, processed_send, processed_send]
    rfl
  · rw [processed_send, processed_send, processed_send]
    rfl

/-! ### The two reads -/

/-- **The read of a header**: if it is accepted, it stays at the front of what is to be
read; if not, it is gone. -/
theorem pending_takeHeader (hstatus : w.dashboard.packetStatus = .waiting)
    (hlen : 12 < w.incoming.length) :
    (Admits w.pending ∧ w.takeHeader.pending = w.pending ∨
        ¬ Admits w.pending ∧ w.takeHeader.pending = w.pending.drop 12) ∧
      processedPackets w.takeHeader.trace = processedPackets w.trace := by
  have hread := take_read (Nat.le_of_lt hlen)
  have hadmits := admits_congr hread
  rw [pending_of_waiting hstatus, ← hadmits]
  rw [Firmware.takeHeader]
  split_ifs with hsealed hsmall
  · refine ⟨Or.inl ⟨⟨hsealed, Nat.le_of_lt_succ hsmall⟩, ?_⟩, processed_send _ _⟩
    rw [pending_of_received rfl, ← List.take_append_drop 12 w.incoming, ← hread]
    rfl
  · refine ⟨Or.inr ⟨fun h => hsmall (Nat.lt_succ_of_le h.2), ?_⟩, processed_send _ _⟩
    exact pending_of_waiting hstatus
  · exact ⟨Or.inr ⟨fun h => hsealed h.1, pending_of_waiting hstatus⟩, rfl⟩

/-- **The read of the rest of a packet**: the packet is gone, and processed if its
checksums are the same. -/
theorem pending_takePayload (h : Sound w es) (hstatus : w.dashboard.packetStatus = .headerReceived)
    (hlen : payloadSize w.rxBuffer.data + 4 ≤ w.incoming.length) :
    Admits w.pending ∧ announced w.pending ≤ w.pending.length ∧
      w.takePayload.pending = w.pending.drop (announced w.pending) ∧
      processedPackets w.takePayload.trace = processedPackets w.trace ++ found w.pending := by
  have hfront := take_pending hstatus
  obtain ⟨hsealed, hfits⟩ := h.header hstatus
  have hadmits : Admits w.pending := (admits_congr hfront).mpr ⟨hsealed, hfits⟩
  have hsize : announced w.pending = 12 + (payloadSize w.rxBuffer.data + 4) := by
    rw [announced, payloadSize_congr hfront, Nat.add_assoc]
  have htwelve := w.length_take_rxBuffer
  have hpending : w.pending.length = 12 + w.incoming.length := by
    rw [pending_of_received hstatus, List.length_append, htwelve]
  -- the bytes in the buffer are those at the front
  have hload : w.loadPayload.rxBuffer.data.take (announced w.pending) =
      w.pending.take (announced w.pending) := by
    obtain ⟨hkept, hread⟩ := rxBuffer_read (w := w)
      (show 12 + (payloadSize w.rxBuffer.data + 4) ≤ 101 by
        have hfits' : 12 + payloadSize w.rxBuffer.data + 4 ≤ 100 := hfits
        omega) hlen
    have hbuf : w.loadPayload.rxBuffer = (w.read 12 (payloadSize w.rxBuffer.data + 4)).rxBuffer :=
      rfl
    have hcut : ∀ l : List Byte, l.take (12 + (payloadSize w.rxBuffer.data + 4)) =
        l.take 12 ++ (l.drop 12).take (payloadSize w.rxBuffer.data + 4) := fun _ => List.take_add
    rw [hbuf, hsize, hcut, hkept, hread, pending_of_received hstatus, hcut, List.take_left' htwelve,
      List.drop_left' htwelve]
  have hloadSize : announced w.loadPayload.rxBuffer.data = announced w.pending := by
    rw [announced, payloadSize_loadPayload, announced, payloadSize_congr hfront]
  have hmatches : Matches w.loadPayload.rxBuffer.data ↔ Matches w.pending := by
    apply matches_congr
    rw [hloadSize, hload]
  refine ⟨hadmits, by omega, ?_, ?_⟩
  · have hcut : ∀ l : List Byte, l.drop (12 + (payloadSize w.rxBuffer.data + 4)) =
        (l.drop 12).drop (payloadSize w.rxBuffer.data + 4) := fun _ => List.drop_drop.symm
    rw [pending_of_waiting (status_takePayload w), incoming_takePayload, hsize, hcut,
      pending_of_received hstatus, List.drop_left' htwelve]
  · have hpacket : w.received.2.packet = w.pending.take (announced w.pending) := by
      rw [Firmware.packet, rxBuffer_received, ← hload, ← hloadSize]
      rfl
    rw [Firmware.takePayload, found, taken, if_pos hadmits]
    by_cases hsum : Matches w.pending
    · have hgo : w.received.1 = true := by
        have hsame : payloadChecksum _ = receivedChecksum _ := hmatches.mpr hsum
        rw [Firmware.received, Firmware.check, if_pos hsame]
      rw [if_pos hgo, if_pos ⟨hadmits, hsum⟩, processed_process, processed_received, hpacket]
    · have hstop : ¬ w.received.1 = true := by
        have hdiffer : ¬ payloadChecksum _ = receivedChecksum _ := fun hsame =>
          hsum (hmatches.mp hsame)
        rw [Firmware.received, Firmware.check, if_neg hdiffer]
        exact Bool.false_ne_true
      rw [if_neg hstop, if_neg fun hboth => hsum hboth.2, processed_received, List.append_nil]

/-- **One read**: what was processed, followed by what is still to be found, stays the
same. -/
theorem ReadStep.parse (h : Sound w es) (hstep : ReadStep w v) :
    processedPackets v.trace ++ Houston.parse v.pending =
      processedPackets w.trace ++ Houston.parse w.pending := by
  cases hstep with
  | header hstatus hlen =>
    obtain ⟨⟨-, hpending⟩ | ⟨hrefused, hpending⟩, hprocessed⟩ := pending_takeHeader hstatus hlen
    · rw [hprocessed, hpending]
    · have hlen' : 12 < w.pending.length := by rwa [pending_of_waiting hstatus]
      rw [hprocessed, hpending, parse_of_refused hlen' hrefused]
  | payload hstatus hlen =>
    obtain ⟨hadmits, hfits, hpending, hprocessed⟩ := pending_takePayload h hstatus hlen
    have htaken : taken w.pending = announced w.pending := if_pos hadmits
    have hlen' : 12 < w.pending.length := by
      rw [announced] at hfits
      omega
    rw [hprocessed, hpending, parse_eq hlen' (by rwa [htaken]), htaken, List.append_assoc]

/-- The receiver is in one of the two states it uses. -/
def Firmware.Listening (w : Firmware) : Prop :=
  w.dashboard.packetStatus = .waiting ∨ w.dashboard.packetStatus = .headerReceived

theorem Firmware.Listening.step (h : ReadStep w v) : v.Listening := by
  cases h with
  | header hstatus hlen =>
    rw [Firmware.takeHeader]
    split_ifs
    · exact Or.inr rfl
    · exact Or.inl hstatus
    · exact Or.inl hstatus
  | payload hstatus hlen => exact Or.inl (status_takePayload w)

theorem Sound.readStep (h : Sound w es) (hstep : ReadStep w v) : Sound v es := by
  cases hstep with
  | header hstatus hlen => exact h.takeHeader hstatus
  | payload hstatus hlen => exact h.takePayload

/-- A receiver that has come to an end finds nothing more. -/
theorem parse_of_stuck (h : Sound w es) (hlistening : w.Listening) (hstuck : receiver.Stuck w) :
    parse w.pending = [] := by
  apply parse_eq_nil
  rcases hlistening with hstatus | hstatus
  · rw [pending_of_waiting hstatus]
    exact Or.inl (Nat.le_of_not_lt fun hlen => hstuck _ (.header hstatus hlen))
  · have hfront := take_pending hstatus
    have hadmits : Admits w.pending := (admits_congr hfront).mpr (h.header hstatus)
    have hshort : w.incoming.length < payloadSize w.rxBuffer.data + 4 :=
      Nat.lt_of_not_le fun hlen => hstuck _ (.payload hstatus hlen)
    refine Or.inr ?_
    rw [taken, if_pos hadmits, announced_congr hfront, announced, pending_of_received hstatus,
      List.length_append, w.length_take_rxBuffer]
    omega

/-- **A sequence of reads**: what was processed, followed by what is still to be found. -/
theorem steps_parse (h : Sound w es) (hlistening : w.Listening)
    (hsteps : ReflTransGen ReadStep w v) :
    v.Listening ∧ Sound v es ∧ processedPackets v.trace ++ parse v.pending =
      processedPackets w.trace ++ parse w.pending := by
  induction hsteps with
  | refl => exact ⟨hlistening, h, rfl⟩
  | tail _ hstep ih =>
    obtain ⟨-, hsound, hsame⟩ := ih
    exact ⟨.step hstep, hsound.readStep hstep, (hstep.parse hsound).trans hsame⟩

/-- **Any schedule** that comes to an end has processed the packets that are found in
what was to be read, followed by what has arrived. -/
theorem schedule_parse (h : Sound w es) (hlistening : w.Listening) (slots : List Slot) :
    ∃ v, runSchedule slots w = some v ∧ (Quiet v →
      processedPackets v.trace = processedPackets w.trace ++ parse (w.pending ++ stream slots)) := by
  obtain ⟨v, hrun, hsound, hsteps⟩ := schedule_run slots h
  refine ⟨v, hrun, fun hquiet => ?_⟩
  obtain ⟨hend, -, hsame⟩ := steps_parse (h.feed (stream slots)) hlistening hsteps.steps
  have hstuck := (quiet_iff hsound).mp hquiet
  rw [parse_of_stuck hsound hend hstuck, List.append_nil] at hsame
  rw [hsame, pending_feed]
  rfl

end Houston
