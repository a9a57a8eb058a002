import Houston.Burst
import Houston.Commands
import Houston.Sparse

/-!
# Flipped bits

Wherever up to three bits of a packet are flipped, in the header, behind it, or in both, the
packet that comes in is noticed. For the packets that the firmware sends or accepts this follows
from two short computations about the taps of the two registers.

* `Packet.bytes_eq_of_flips` — two packets of one length differ in at least four bits.
* `flips_rejected` — the dispatcher prints a message, and nothing else happens.
* `flips_ignored` — a command that comes in like this, in whatever pieces, leaves the variables
  and the table of the firmware alone.
-/

namespace Houston

open ShiftRegister Stuffing

/-- In how many bits two strings of bytes of one length differ. -/
def flips (P Q : List Byte) : ℕ := (List.zipWith xor (bitsOf P) (bitsOf Q)).count true

theorem flips_append {P P' Q Q' : List Byte} (h : P.length = Q.length) :
    flips (P ++ P') (Q ++ Q') = flips P Q + flips P' Q' := by
  rw [flips, bitsOf_append, bitsOf_append, List.zipWith_append, List.count_append, flips, flips]
  rw [length_bitsOf, length_bitsOf, h]

/-- A header is twelve bytes long. -/
theorem spread_taps16 : Spread taps16 95 := spread_of_sorted (by decide +kernel)

/-- A packet that fits has 88 bytes behind the header. -/
theorem spread_taps32 : Spread taps32 703 := spread_of_sorted (by decide +kernel)

theorem eq_of_flips_taps16 {P Q : List Byte} (hlen : P.length = Q.length) (hsize : P.length ≤ 12)
    (hrun : run taps16 (bitsOf P) 0 = run taps16 (bitsOf Q) 0) (hflips : flips P Q ≤ 3) : P = Q := by
  refine bitsOf_injective (eq_of_flips (by decide) spread_taps16 ?_ ?_ hrun hflips)
  · rw [length_bitsOf, length_bitsOf, hlen]
  · rw [length_bitsOf]
    omega

theorem eq_of_flips_taps32 {P Q : List Byte} (hlen : P.length = Q.length) (hsize : P.length ≤ 88)
    (hrun : run taps32 (bitsOf P) 0 = run taps32 (bitsOf Q) 0) (hflips : flips P Q ≤ 3) : P = Q := by
  refine bitsOf_injective (eq_of_flips (by decide) spread_taps32 ?_ ?_ hrun hflips)
  · rw [length_bitsOf, length_bitsOf, hlen]
  · rw [length_bitsOf]
    omega

/-- A sealed header leaves the register of `crc16` at zero. -/
theorem HeaderSealed.residue {P : List Byte} (h : HeaderSealed P) (hlen : 12 ≤ P.length) :
    run taps16 (bitsOf (P.take 12)) 0 = 0 := by
  set hd := DashboardPacketHeader.ofBytes P with hhd
  have htop : hd.toBytes = P.take 12 := DashboardPacketHeader.toBytes_ofBytes hlen
  have hfront : hd.front = P.take 10 := by
    rw [← DashboardPacketHeader.take_toBytes, htop, List.take_take]
    rfl
  rw [← htop, DashboardPacketHeader.toBytes, bitsOf_append, bitsOf_wordBytes 2]
  refine (run_bits_eq_zero (by decide) _ _ _).mpr ?_
  rw [← crc16_eq, hfront]
  exact h

section Front

variable {P Q : List Byte} (hlen : Q.length = P.length) (hflips : flips P Q ≤ 3)
include hlen hflips

/-- The flips in the header and those behind it. -/
theorem flips_cut : flips (P.take 12) (Q.take 12) ≤ 3 ∧ flips (P.drop 12) (Q.drop 12) ≤ 3 := by
  have hcut : flips P Q = flips (P.take 12) (Q.take 12) + flips (P.drop 12) (Q.drop 12) := by
    rw [← flips_append (by rw [List.length_take, List.length_take, hlen]), List.take_append_drop,
      List.take_append_drop]
  omega

/-- **No sealed header** becomes another one. -/
theorem take_eq_of_flips (hP : HeaderSealed P) (hQ : HeaderSealed Q) (hsize : 12 ≤ P.length) :
    P.take 12 = Q.take 12 := by
  refine eq_of_flips_taps16 ?_ (List.length_take_le _ _) ?_ (flips_cut hlen hflips).1
  · rw [List.length_take, List.length_take, hlen]
  · rw [hP.residue hsize, hQ.residue (hlen.symm ▸ hsize)]

end Front

/-- **Packets that fit differ in at least four bits**, if they are of one length. -/
theorem Packet.bytes_eq_of_flips {p q : Packet} (hsize : p.bytes.length ≤ 100)
    (hlen : q.bytes.length = p.bytes.length) (hflips : flips p.bytes q.bytes ≤ 3) :
    p.bytes = q.bytes := by
  have htwelve : 12 ≤ p.bytes.length := (p.framed_bytes).twelve_le
  have hheader := take_eq_of_flips hlen hflips p.headerSealed_bytes q.headerSealed_bytes htwelve
  have hrest : p.bytes.drop 12 = q.bytes.drop 12 := by
    refine eq_of_flips_taps32 ?_ ?_ ?_ (flips_cut hlen hflips).2
    · rw [List.length_drop, List.length_drop, hlen]
    · rw [List.length_drop]
      omega
    · rw [p.residue_payload, q.residue_payload]
  rw [← List.take_append_drop 12 p.bytes, hheader, hrest, List.take_append_drop]

/-! ## The dispatcher -/

/-- **Flipped bits are rejected**: whatever comes in that is decoded to a packet of at most 100
bytes with up to three bits flipped, the dispatcher prints a message and drops it. -/
theorem flips_rejected (p : Packet) (hsize : p.bytes.length ≤ 100) {Q data : List Byte}
    (hlen : Q.length = p.bytes.length) (hne : Q ≠ p.bytes) (hflips : flips p.bytes Q ≤ 3)
    (hdata : data.length < 2 ^ 31) (hdecode : unstuff data = some Q) (h : Host) :
    ∃ message, dispatchData data h = some (h.print message) := by
  rcases dispatchData_cases hdata h with ⟨-, hmessage⟩ | ⟨q, -, hq, -⟩
  · exact hmessage
  · obtain rfl := Option.some.inj (hdecode.symm.trans hq)
    exact absurd (p.bytes_eq_of_flips hsize hlen hflips).symm hne

/-- A request with three bits flipped, one in the header and two behind it. -/
def damagedRequest : List Byte := (request.bytes.set 1 1).set 15 3

/-- The dispatcher that `main` sets up rejects it. -/
theorem flips_rejected_request :
    ∃ message, dispatchData (stuff damagedRequest) Host.main =
      some (Host.main.print message) :=
  flips_rejected request (by decide) (by decide +kernel) (by decide +kernel) (by decide +kernel)
    (by decide +kernel) (unstuff_stuff_short (by decide +kernel)) Host.main

/-! ## The firmware -/

section Damaged

variable {p : Packet} {Q : List Byte} (hsize : p.bytes.length ≤ 24)
  (hlen : Q.length = p.bytes.length) (hne : Q ≠ p.bytes) (hflips : flips p.bytes Q ≤ 3)
include hsize hlen hne hflips

/-- The header is refused, or the checksums differ, and then nothing is left. -/
theorem admits_damaged (hadmits : Admits Q) : announced Q = Q.length ∧ ¬ Matches Q := by
  have htwelve : 12 ≤ p.bytes.length := (p.framed_bytes).twelve_le
  have hheader := take_eq_of_flips hlen hflips p.headerSealed_bytes hadmits.1 htwelve
  obtain ⟨-, hannounced⟩ := admits_packet p (by omega) []
  rw [List.append_nil] at hannounced
  have hall : announced Q = Q.length := by
    rw [← announced_congr hheader, hannounced, hlen]
  -- with both checksums right it would be another packet
  refine ⟨hall, fun hmatches => ?_⟩
  have hsealed : Sealed Q := ⟨hadmits.1, hall.symm, hmatches⟩
  obtain ⟨q, rfl⟩ := sealed_iff.mp hsealed
  exact hne (p.bytes_eq_of_flips (by omega) hlen hflips).symm

/-- **No packet is found** in a damaged command. -/
theorem parse_damaged : parse Q = [] := by
  rcases Nat.lt_or_ge 12 Q.length with hlong | hshort
  · by_cases hadmits : Admits Q
    · obtain ⟨hall, hdiffer⟩ := admits_damaged hsize hlen hne hflips hadmits
      have htaken : taken Q = Q.length := (if_pos hadmits).trans hall
      rw [parse_eq hlong (Nat.le_of_eq htaken), found, if_neg fun h => hdiffer h.2, htaken,
        List.drop_length, List.nil_append]
      exact parse_eq_nil (Or.inl (Nat.zero_le 12))
    · rw [parse_of_refused hlong hadmits]
      refine parse_eq_nil (Or.inl ?_)
      rw [List.length_drop]
      omega
  · exact parse_eq_nil (Or.inl hshort)

/-- A damaged command leaves the table and the variables alone. -/
theorem converse_damaged (t : Store) :
    (t.converse Q).2.rows = t.rows ∧ (t.converse Q).2.vars = t.vars := by
  rcases Nat.lt_or_ge 12 Q.length with hlong | hshort
  · by_cases hadmits : Admits Q
    · obtain ⟨hall, hdiffer⟩ := admits_damaged hsize hlen hne hflips hadmits
      rw [t.converse_of_admits hadmits (Nat.le_of_eq hall), hall, List.drop_length,
        Store.converse_nil, Store.judge, if_neg hdiffer]
      exact ⟨rfl, rfl⟩
    · -- what is left behind the header is too short for another one
      have hrest : (Q.drop 12).length ≤ 12 := by
        rw [List.length_drop]
        omega
      rw [t.converse_of_refused hlong hadmits, t.converse_of_le hrest]
      exact ⟨rfl, rfl⟩
  · rw [t.converse_of_le hshort]
    exact ⟨rfl, rfl⟩

end Damaged

/-- A command is short enough that less than a header is left of it behind its header. -/
theorem length_command_le (c : Command) : c.toPacket.bytes.length ≤ 24 := by
  cases c with
  | refresh => decide
  | modify record =>
    have hkey : (LiveDataPanel.modifyPacket record).key.length = 8 := record.length_toBytes
    have hvalue : (LiveDataPanel.modifyPacket record).value.length = 0 := rfl
    rw [Command.toPacket, Packet.length_bytes, hkey, hvalue]

/-- **Flipped bits are ignored**: a command with up to three bits flipped comes in to an idle
firmware, in pieces of any sizes. When it comes to an end, no packet has been processed, and the
table and the variables are as they were. -/
theorem flips_ignored {w : Firmware} (h : Idle w) (c : Command) {Q : List Byte}
    (hlen : Q.length = c.toPacket.bytes.length) (hne : Q ≠ c.toPacket.bytes)
    (hflips : flips c.toPacket.bytes Q ≤ 3) {slots : List Slot} (hstream : stream slots = Q) :
    ∃ v, runSchedule slots w = some v ∧ (Quiet v →
      processedPackets v.trace = processedPackets w.trace ∧ v.rows = w.rows ∧ v.vars = w.vars) := by
  have hsize := length_command_le c
  obtain ⟨v, hrun, hparsed⟩ := h.schedule slots
  obtain ⟨v', hrun', hend⟩ := schedule_outcome h.reachable slots
  obtain rfl := Option.some.inj (hrun.symm.trans hrun')
  refine ⟨v, hrun, fun hquiet => ?_⟩
  have hstore : v.store = (w.store.converse Q).2 := by
    have hpending : (w.feed (stream slots)).pending = Q := by
      rw [pending_feed, pending_of_waiting h.waiting, h.empty, hstream, List.nil_append]
    rw [← hpending]
    exact (Prod.mk.inj (hend hquiet)).2
  obtain ⟨hrows, hvars⟩ := converse_damaged hsize hlen hne hflips w.store
  rw [← hstore] at hrows hvars
  refine ⟨?_, hrows, hvars⟩
  rw [hparsed hquiet, hstream, parse_damaged hsize hlen hne hflips, List.append_nil]

/-- A damaged request that comes in in two pieces. -/
theorem flips_ignored_request :
    ∃ v, runSchedule [.arrive (damagedRequest.take 9), .update openTransport,
        .arrive (damagedRequest.drop 9), .update openTransport] oneVariable = some v ∧ Quiet v ∧
      processedPackets v.trace = processedPackets oneVariable.trace ∧
        v.rows = oneVariable.rows ∧ v.vars = oneVariable.vars := by
  have hstream : stream [.arrive (damagedRequest.take 9), .update openTransport,
      .arrive (damagedRequest.drop 9), .update openTransport] = damagedRequest := by decide +kernel
  obtain ⟨v, hrun, hignored⟩ := flips_ignored ⟨reachable_oneVariable, rfl, rfl⟩ .refresh
    (by decide +kernel) (by decide +kernel) (by decide +kernel) hstream
  have hquiet := reachable_oneVariable.quiet_of_endsWaiting hrun (by decide +kernel)
  exact ⟨v, hrun, hquiet, hignored hquiet⟩

end Houston
