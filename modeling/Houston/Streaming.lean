import Houston.Dispatcher
import Houston.Parsing

/-!
# Streams of packets

A stream of packets, one behind the other, is read packet by packet as long as every
header is accepted. A packet that is refused for its payload checksum is gone with its
payload; but of a packet that is refused as too large only the header is gone, and its
payload is read as if it were packets.

* `parse_framed` — the receiver reads a packet that fits and goes on behind it.
* `processesGood_iff` — the headers with which every stream is processed packet by
  packet.
* `agreement` — the firmware and the dispatcher accept the same packets.
-/

namespace Houston

open Stuffing

variable {w : Firmware} {bs P : List Byte}

/-! ## One packet at the front -/

/-- A header with the right checksum, and as many bytes behind it as it announces. -/
def Framed (P : List Byte) : Prop := HeaderSealed P ∧ P.length = announced P

/-- The packet fits, and its two payload checksums are the same. -/
def Good (P : List Byte) : Prop := announced P ≤ kAlertBufSize ∧ Matches P

instance (P : List Byte) : Decidable (Framed P) := inferInstanceAs (Decidable (_ ∧ _))

instance (P : List Byte) : Decidable (Good P) := inferInstanceAs (Decidable (_ ∧ _))

/-- What stands behind a packet does not matter to it. -/
theorem announced_append (hlen : 12 ≤ P.length) (bs : List Byte) :
    announced (P ++ bs) = announced P ∧ (Admits (P ++ bs) ↔ Admits P) := by
  have hfront : (P ++ bs).take 12 = P.take 12 := List.take_append_of_le_length hlen
  exact ⟨announced_congr hfront, admits_congr hfront⟩

theorem Framed.twelve_lt (h : Framed P) : 12 < P.length := by
  have hlen := h.2
  rw [announced] at hlen
  omega

theorem Framed.twelve_le (h : Framed P) : 12 ≤ P.length := Nat.le_of_lt h.twelve_lt

/-- **A packet that fits is read**, and the receiver goes on behind it. -/
theorem parse_framed (h : Framed P) (hfits : announced P ≤ kAlertBufSize) (bs : List Byte) :
    parse (P ++ bs) = (if Good P then [P] else []) ++ parse bs := by
  have hlen := h.2
  obtain ⟨hannounced, hadmits⟩ := announced_append h.twelve_le bs
  have hadmitted : Admits (P ++ bs) := hadmits.mpr ⟨h.1, hfits⟩
  have htaken : taken (P ++ bs) = P.length := by
    rw [taken, if_pos hadmitted, hannounced, hlen]
  have hmatches : Matches (P ++ bs) ↔ Matches P := by
    apply matches_congr
    rw [hannounced, ← hlen, List.take_left, List.take_length]
  have hfound : found (P ++ bs) = if Good P then [P] else [] := by
    rw [found, htaken, List.take_left]
    simp only [hadmitted, hmatches, true_and, Good, hfits]
  have hlong : 12 < (P ++ bs).length := by
    rw [List.length_append]
    exact Nat.lt_add_right _ h.twelve_lt
  rw [parse_eq hlong (by rw [htaken, List.length_append]; omega), hfound, htaken, List.drop_left]

/-- **Of a packet that is too large only the header is read.** -/
theorem parse_too_large (h : Framed P) (hlarge : kAlertBufSize < announced P) (bs : List Byte) :
    parse (P ++ bs) = parse (P.drop 12 ++ bs) := by
  obtain ⟨-, hadmits⟩ := announced_append h.twelve_le bs
  have hrefused : ¬ Admits (P ++ bs) := fun hadmitted =>
    Nat.not_le_of_lt hlarge (hadmits.mp hadmitted).2
  have hlong : 12 < (P ++ bs).length := by
    rw [List.length_append]
    exact Nat.lt_add_right _ h.twelve_lt
  rw [parse_of_refused hlong hrefused, List.drop_append_of_le_length h.twelve_le]

/-- A packet of the protocol is framed, and it is good if it fits. -/
theorem Packet.framed_bytes (p : Packet) : Framed p.bytes :=
  ⟨p.sealed_bytes.header, p.sealed_bytes.length⟩

theorem Packet.good_bytes {p : Packet} (hfits : p.bytes.length ≤ kAlertBufSize) : Good p.bytes :=
  ⟨p.framed_bytes.2 ▸ hfits, p.sealed_bytes.payload⟩

/-! ## Streams of packets -/

/-- **A stream of packets that fit** is read packet by packet. -/
theorem parse_flatten : ∀ packets : List (List Byte),
    (∀ P ∈ packets, Framed P ∧ announced P ≤ kAlertBufSize) →
      parse packets.flatten = packets.filter Good := by
  intro packets
  induction packets with
  | nil => exact fun _ => parse_eq_nil (Or.inl (Nat.zero_le 12))
  | cons P packets ih =>
    intro hpackets
    obtain ⟨hframed, hfits⟩ := hpackets P List.mem_cons_self
    rw [List.flatten_cons, parse_framed hframed hfits,
      ih fun Q hQ => hpackets Q (List.mem_cons_of_mem P hQ), List.filter_cons]
    by_cases hgood : Good P
    · rw [if_pos hgood, if_pos (decide_eq_true hgood), List.singleton_append]
    · rw [if_neg hgood, if_neg (by simpa using hgood), List.nil_append]

/-- However a stream of packets arrives, when it comes to an end the good ones have been
processed, once each and in order, and nothing else. -/
def ProcessesGood (w : Firmware) (packets : List (List Byte)) : Prop :=
  ∀ slots, stream slots = packets.flatten → ∃ v, runSchedule slots w = some v ∧
    (Quiet v →
      processedPackets v.trace = processedPackets w.trace ++ packets.filter Good)

/-- A firmware that waits for a header, with nothing to read. -/
structure Idle (w : Firmware) : Prop where
  reachable : Reachable w
  waiting : w.dashboard.packetStatus = .waiting
  empty : w.incoming = []

/-- What an idle firmware makes of a stream. -/
theorem Idle.schedule (h : Idle w) (slots : List Slot) :
    ∃ v, runSchedule slots w = some v ∧
      (Quiet v → processedPackets v.trace = processedPackets w.trace ++ parse (stream slots)) := by
  obtain ⟨es, hsound⟩ := h.reachable.sound
  have hpending : w.pending = [] := by rw [pending_of_waiting h.waiting, h.empty]
  have hrun := schedule_parse hsound (Or.inl h.waiting) slots
  rwa [hpending, List.nil_append] at hrun

/-- Every stream can be delivered at once, and comes to an end. -/
theorem Idle.deliver (h : Idle w) (bytes : List Byte) :
    ∃ slots v, stream slots = bytes ∧ runSchedule slots w = some v ∧ Quiet v ∧
      processedPackets v.trace = processedPackets w.trace ++ parse bytes := by
  obtain ⟨es, hsound⟩ := h.reachable.sound
  obtain ⟨slots, v, hstream, hend, hquiet⟩ := exists_schedule hsound bytes
  obtain ⟨v', hrun, hprocessed⟩ := h.schedule slots
  obtain rfl := Option.some.inj (hrun.symm.trans hend)
  exact ⟨slots, v', hstream, hrun, hquiet, by rw [hprocessed hquiet, hstream]⟩

/-- The streams that are processed as they should be are those that are read so. -/
theorem Idle.processesGood_iff_parse (h : Idle w) (packets : List (List Byte)) :
    ProcessesGood w packets ↔ parse packets.flatten = packets.filter Good := by
  constructor
  · intro hgood
    obtain ⟨slots, v, hstream, hrun, hquiet, hprocessed⟩ := h.deliver packets.flatten
    obtain ⟨v', hrun', hgood⟩ := hgood slots hstream
    cases hrun.symm.trans hrun'
    exact List.append_cancel_left (hprocessed.symm.trans (hgood hquiet))
  · intro hparse slots hstream
    obtain ⟨v, hrun, hprocessed⟩ := h.schedule slots
    exact ⟨v, hrun, fun hquiet => by rw [hprocessed hquiet, hstream, hparse]⟩

/-! ### Too large packets -/

/-- A packet with the given header that is not good: it carries a request where it is too
large, and a wrong payload checksum where it fits. -/
def spoiled (header : List Byte) : List Byte :=
  if announced header ≤ kAlertBufSize then
    header ++ (List.replicate (payloadSize header) 0 ++
      wordBytes 4 (crc32 (List.replicate (payloadSize header) 0) 0 + 1))
  else header ++ (request.bytes ++ List.replicate (payloadSize header + 4 - 16) 0)

variable {header : List Byte}

theorem length_request : request.bytes.length = 16 := request.length_bytes

theorem spoiled_eq (header : List Byte) : ∃ rest, spoiled header = header ++ rest := by
  rw [spoiled]
  split_ifs
  · exact ⟨_, rfl⟩
  · exact ⟨_, rfl⟩

theorem framed_spoiled (hlen : header.length = 12) (hsealed : HeaderSealed header) :
    Framed (spoiled header) := by
  have hfront : (spoiled header).take 12 = header.take 12 := by
    obtain ⟨rest, hrest⟩ := spoiled_eq header
    rw [hrest, List.take_append_of_le_length (Nat.le_of_eq hlen.symm)]
  refine ⟨(headerSealed_congr hfront).mpr hsealed, ?_⟩
  rw [announced_congr hfront, spoiled]
  split_ifs with hfits
  · rw [List.length_append, List.length_append, List.length_replicate, length_wordBytes, hlen,
      announced]
    omega
  · rw [announced] at hfits ⊢
    have hlarge : ¬ 12 + payloadSize header + 4 ≤ 100 := hfits
    rw [List.length_append, List.length_append, List.length_replicate, length_request, hlen]
    omega

theorem announced_spoiled (hlen : header.length = 12) :
    announced (spoiled header) = announced header := by
  obtain ⟨rest, hrest⟩ := spoiled_eq header
  rw [hrest]
  exact (announced_append (Nat.le_of_eq hlen.symm) rest).1

theorem not_good_spoiled (hlen : header.length = 12) : ¬ Good (spoiled header) := by
  rintro ⟨hfits, hmatches⟩
  rw [announced_spoiled hlen] at hfits
  have hsize : payloadSize (spoiled header) = payloadSize header := by
    have hsame := announced_spoiled hlen
    rw [announced, announced] at hsame
    omega
  rw [Matches, payloadChecksum, receivedChecksum, hsize, spoiled, if_pos hfits,
    List.drop_left' hlen, List.take_left' List.length_replicate] at hmatches
  have hread := wordAt_append (k := 4) (by decide)
    (crc32 (List.replicate (payloadSize header) 0) 0 + 1)
    (header ++ List.replicate (payloadSize header) (0 : Byte)) []
  rw [List.length_append, List.length_replicate, hlen, List.append_nil, List.append_assoc]
    at hread
  rw [hread] at hmatches
  exact absurd (BitVec.self_eq_add_right.mp hmatches) (by decide)

/-- **The payload of a too large packet is taken for packets.** -/
theorem parse_spoiled_ne_nil : ∀ headers : List (List Byte),
    (∀ hd ∈ headers, hd.length = 12 ∧ HeaderSealed hd) →
      (∃ hd ∈ headers, kAlertBufSize < announced hd) →
        parse (headers.map spoiled).flatten ≠ [] := by
  intro headers
  induction headers with
  | nil =>
    rintro - ⟨hd, hmem, -⟩
    cases hmem
  | cons hd headers ih =>
    intro hheaders hlarge
    obtain ⟨hlen, hsealed⟩ := hheaders hd List.mem_cons_self
    have hframed := framed_spoiled hlen hsealed
    have hsame := announced_spoiled hlen
    rw [List.map_cons, List.flatten_cons]
    rcases Nat.lt_or_ge kAlertBufSize (announced hd) with hbig | hfits
    · -- the receiver goes on at the request
      have hbody : (spoiled hd).drop 12 =
          request.bytes ++ List.replicate (payloadSize hd + 4 - 16) 0 := by
        rw [spoiled, if_neg (Nat.not_le_of_lt hbig), List.drop_left' hlen]
      have hshort : request.bytes.length ≤ kAlertBufSize := by
        rw [length_request]
        decide
      rw [parse_too_large hframed (by rwa [hsame]), hbody, List.append_assoc,
        parse_framed request.framed_bytes (request.framed_bytes.2 ▸ hshort),
        if_pos (Packet.good_bytes hshort)]
      exact List.cons_ne_nil _ _
    · rw [parse_framed hframed (by rwa [hsame]), if_neg (not_good_spoiled hlen), List.nil_append]
      refine ih (fun hd' hmem => hheaders hd' (List.mem_cons_of_mem hd hmem)) ?_
      obtain ⟨hd', hmem, hbig⟩ := hlarge
      rcases List.mem_cons.mp hmem with rfl | hmem
      · exact absurd hbig (Nat.not_lt_of_le hfits)
      · exact ⟨hd', hmem, hbig⟩

/-- **When streams of packets are processed packet by packet**: for a sequence of headers,
whatever the payloads and the payload checksums behind them, exactly when none of the
headers announces a packet that is too large. -/
theorem processesGood_iff (h : Idle w) {headers : List (List Byte)}
    (hheaders : ∀ hd ∈ headers, hd.length = 12 ∧ HeaderSealed hd) :
    (∀ packets : List (List Byte), (∀ P ∈ packets, Framed P) →
        packets.map (List.take 12) = headers → ProcessesGood w packets) ↔
      ∀ hd ∈ headers, announced hd ≤ kAlertBufSize := by
  constructor
  · intro hall hd hmem
    by_contra hbig
    have hspoiled : ProcessesGood w (headers.map spoiled) := by
      refine hall _ (fun P hP => ?_) ?_
      · obtain ⟨hd, hmem, rfl⟩ := List.mem_map.mp hP
        exact framed_spoiled (hheaders hd hmem).1 (hheaders hd hmem).2
      · rw [List.map_map]
        refine (List.map_congr_left fun hd hmem => ?_).trans (List.map_id headers)
        obtain ⟨rest, hrest⟩ := spoiled_eq hd
        rw [Function.comp_apply, hrest, List.take_left' (hheaders hd hmem).1, id_eq]
    rw [h.processesGood_iff_parse, List.filter_eq_nil_iff.mpr] at hspoiled
    · exact parse_spoiled_ne_nil headers hheaders ⟨hd, hmem, Nat.lt_of_not_le hbig⟩ hspoiled
    · intro P hP
      obtain ⟨hd, hmem, rfl⟩ := List.mem_map.mp hP
      simpa using not_good_spoiled (hheaders hd hmem).1
  · intro hfits packets hframed hmap
    rw [h.processesGood_iff_parse]
    refine parse_flatten packets fun P hP => ⟨hframed P hP, ?_⟩
    have hsame : announced (P.take 12) = announced P := by
      apply announced_congr
      rw [List.take_take]
      rfl
    rw [← hsame]
    exact hfits (P.take 12) (hmap ▸ List.mem_map_of_mem hP)

theorem idle_boot (vars : Ptr → BitVec 32) : Idle (.boot vars) := ⟨.boot vars, rfl, rfl⟩

/-- Streams of whatever has the headers of a request and of a reading. -/
theorem processesGood_iff_two :
    (∀ packets : List (List Byte), (∀ P ∈ packets, Framed P) →
        packets.map (List.take 12) = [request.bytes.take 12, reading.bytes.take 12] →
        ProcessesGood (.boot fun _ => 0) packets) ↔
      ∀ hd ∈ [request.bytes.take 12, reading.bytes.take 12], announced hd ≤ kAlertBufSize :=
  processesGood_iff (idle_boot _) (by decide +kernel)

/-- A packet with 85 bytes of payload, the first 16 of which are a request. -/
def tooLarge : List Byte :=
  (craftDashboardHeaderPacket PacketID.modify.code 0 0 85).toBytes ++
    (request.bytes ++ List.replicate 73 1)

/-- **A packet is missed, and a payload is taken for one**: the too large packet is refused,
the request in its payload is processed, and the good packet behind it is not. -/
theorem not_processesGood_tooLarge :
    Framed tooLarge ∧ ¬ Good tooLarge ∧
      Framed (Packet.blank PacketID.modify.code).bytes ∧
      Good (Packet.blank PacketID.modify.code).bytes ∧
      parse [tooLarge, (Packet.blank PacketID.modify.code).bytes].flatten = [request.bytes] ∧
      Idle (.boot fun _ => 0) ∧
      ¬ ProcessesGood (.boot fun _ => 0) [tooLarge, (Packet.blank PacketID.modify.code).bytes] := by
  have hparse : parse [tooLarge, (Packet.blank PacketID.modify.code).bytes].flatten =
      [request.bytes] := by decide +kernel
  refine ⟨by decide +kernel, by decide +kernel, by decide +kernel, by decide +kernel, hparse,
    idle_boot _, ?_⟩
  rw [(idle_boot _).processesGood_iff_parse, hparse]
  decide +kernel

/-! ## The two receivers -/

/-- The dispatcher's checks on the encoding of a string of bytes. -/
theorem dispatchChecks_stuff_iff {P : List Byte} (hlen : P.length ≤ 254) :
    (∃ r, dispatchChecks (stuff P) = some (.ok r)) ↔ Sealed P := by
  have hcap : P.length ≤ Alphabet.cap Byte := hlen
  have hframe : (stuff P).length = P.length + 2 := length_stuff_short hcap
  have hy : unstuff (stuff P) = some P := unstuff_stuff_short hcap
  rcases dispatchChecks_eq (show (stuff P).length < 2 ^ 31 by omega) with
    ⟨y, rest, hy', hsealed, hok⟩ | ⟨hnone, message, herror⟩
  · obtain rfl := Option.some.inj (hy'.symm.trans hy)
    exact iff_of_true ⟨_, hok⟩ hsealed
  · refine iff_of_false ?_ (hnone P hy)
    rintro ⟨r, hok⟩
    cases hok.symm.trans herror

/-- The receiver finds nothing that is longer than the stream. -/
theorem length_le_of_mem_parse (bs : List Byte) : ∀ P ∈ parse bs, P.length ≤ bs.length := by
  induction bs using parse.induct with
  | case1 bs hread ih =>
    intro P hP
    rw [parse_eq hread.1 hread.2, List.mem_append] at hP
    rcases hP with hP | hP
    · rw [found] at hP
      split_ifs at hP
      · rw [List.mem_singleton.mp hP]
        exact List.length_take_le' ..
      · cases hP
    · have hle := ih P hP
      rw [List.length_drop] at hle
      omega
  | case2 bs hread =>
    intro P hP
    rw [parse, dif_neg hread] at hP
    cases hP

/-- **The receiver starts with a packet exactly when it is sealed**, for a string of
bytes of the length that its header announces. -/
theorem parse_eq_cons_iff {P : List Byte} (hlen : P.length = announced P)
    (hfits : P.length ≤ kAlertBufSize) : (∃ others, parse P = P :: others) ↔ Sealed P := by
  have hnil : parse [] = [] := parse_eq_nil (Or.inl (Nat.zero_le 12))
  constructor
  · rintro ⟨others, hparse⟩
    by_cases hheader : HeaderSealed P
    · have hframed := parse_framed ⟨hheader, hlen⟩ (hlen ▸ hfits) []
      rw [List.append_nil, hnil, List.append_nil, hparse] at hframed
      split_ifs at hframed with hgood
      exact ⟨hheader, hlen, hgood.2⟩
    · -- without its header it is not found again
      exfalso
      have hrefused : ¬ Admits P := fun hadmits => hheader hadmits.1
      have hlong : 12 < P.length := by
        rw [hlen, announced]
        omega
      rw [parse_of_refused hlong hrefused] at hparse
      have hle := length_le_of_mem_parse (P.drop 12) P (hparse ▸ List.mem_cons_self)
      rw [List.length_drop] at hle
      omega
  · intro hsealed
    refine ⟨[], ?_⟩
    have hframed := parse_framed ⟨hsealed.header, hlen⟩ (hlen ▸ hfits) []
    rwa [List.append_nil, hnil, List.append_nil,
      if_pos (show Good P from ⟨hlen ▸ hfits, hsealed.payload⟩)] at hframed

/-- **The two receivers agree** on every string of bytes of the length that its own header
announces, if it is at most 100: however it arrives at an idle firmware, the first packet
that is processed is this one if and only if its encoding gets past the dispatcher's
checks. -/
theorem agreement (h : Idle w) {P frame : List Byte}
    (hlen : P.length = 16 + (DashboardPacketHeader.ofBytes P).payloadKeySize.toNat +
      (DashboardPacketHeader.ofBytes P).payloadValueSize.toNat)
    (hfits : P.length ≤ 100) (hframe : CobsOutput P frame) {slots : List Slot}
    (hstream : stream slots = P) :
    ∃ v, runSchedule slots w = some v ∧ (Quiet v →
      ((∃ others, processedPackets v.trace = processedPackets w.trace ++ P :: others) ↔
        ∃ r, dispatchChecks frame = some (.ok r))) := by
  have hannounced : P.length = announced P := by
    rw [hlen, announced, payloadSize]
    omega
  have hne : P ≠ [] := by
    rintro rfl
    rw [List.length_nil] at hlen
    omega
  obtain ⟨v, hrun, hprocessed⟩ := h.schedule slots
  refine ⟨v, hrun, fun hquiet => ?_⟩
  rw [hframe.eq_stuff hne, dispatchChecks_stuff_iff (by omega), hprocessed hquiet, hstream,
    ← parse_eq_cons_iff hannounced hfits]
  simp only [List.append_cancel_left_eq]

/-- A request, and what the dispatcher makes of its encoding. -/
theorem agreement_request :
    ∃ v, runSchedule requestAtOnce (.boot fun _ => 0) = some v ∧ Quiet v ∧
      ((∃ others, processedPackets v.trace =
          processedPackets (Firmware.boot fun _ => 0).trace ++ request.bytes :: others) ↔
        ∃ r, dispatchChecks (stuff request.bytes) = some (.ok r)) := by
  have hframe : CobsOutput request.bytes (stuff request.bytes) :=
    (cobsOutput_iff (by decide +kernel) (by decide +kernel)).mpr rfl
  have hstream : stream requestAtOnce = request.bytes := List.append_nil _
  obtain ⟨v, hrun, hagree⟩ := agreement (idle_boot fun _ => 0) (by decide +kernel)
    (by decide +kernel) hframe hstream
  have hquiet := (Reachable.boot _).quiet_of_endsWaiting hrun (by decide +kernel)
  exact ⟨v, hrun, hquiet, hagree hquiet⟩

end Houston
