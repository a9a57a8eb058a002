import Houston.Dispatcher
import Houston.ShiftRegister

/-!
# Error bursts

Both checksums are shift registers that read the bits of a packet byte by byte, the
lowest bit first, and a packet stores each of them, lowest byte first, right behind the
bytes it is about. So the header of a packet leaves its register at zero, and what
follows the header leaves the other one at zero; and a packet that was hit by a short
burst of errors leaves one of them at something else.

* `crc16_eq`, `crc32_eq` — the loops of the source are runs of a register.
* `Packet.residue_header`, `Packet.residue_payload` — what a packet leaves behind.
* `burst_rejected` — no burst of up to 16 bits, nor one of up to 32 bits behind the
  header, gets past the dispatcher.
-/

namespace Houston

open ShiftRegister

/-- The bits of a string of bytes: byte by byte, the lowest bit first. -/
def bitsOf (bs : List Byte) : List Bool := bs.flatMap bits

theorem bitsOf_cons (b : Byte) (bs : List Byte) : bitsOf (b :: bs) = bits b ++ bitsOf bs :=
  List.flatMap_cons

theorem bitsOf_append (bs cs : List Byte) : bitsOf (bs ++ cs) = bitsOf bs ++ bitsOf cs :=
  List.flatMap_append

theorem length_bitsOf (bs : List Byte) : (bitsOf bs).length = 8 * bs.length := by
  induction bs with
  | nil => rfl
  | cons b bs ih =>
    rw [bitsOf_cons, List.length_append, length_bits, ih, List.length_cons]
    omega

/-- A string of bytes is told by its bits. -/
theorem bitsOf_injective : Function.Injective bitsOf := by
  intro bs
  induction bs with
  | nil =>
    intro cs h
    have hlen := congrArg List.length h
    rw [length_bitsOf, length_bitsOf, List.length_nil] at hlen
    exact (List.length_eq_zero_iff.mp (by omega)).symm
  | cons b bs ih =>
    intro cs h
    cases cs with
    | nil =>
      have hlen := congrArg List.length h
      rw [length_bitsOf, length_bitsOf, List.length_nil, List.length_cons] at hlen
      omega
    | cons c cs =>
      rw [bitsOf_cons, bitsOf_cons] at h
      obtain ⟨hbyte, hrest⟩ := List.append_inj h (by rw [length_bits, length_bits])
      rw [bits_injective hbyte, ih hrest]

/-- The bits of a little-endian word are those of the number. -/
theorem bitsOf_leBytes : ∀ k n : ℕ, bitsOf (leBytes k n) = (List.range (8 * k)).map n.testBit := by
  intro k
  induction k with
  | zero => exact fun _ => rfl
  | succ k ih =>
    intro n
    have hlow : bits (BitVec.ofNat 8 n) = (List.range 8).map n.testBit := by
      rw [bits]
      refine List.map_congr_left fun i hi => ?_
      rw [BitVec.getLsbD_ofNat, decide_eq_true (List.mem_range.mp hi), Bool.true_and]
    have hhigh : (List.range (8 * k)).map (n / 256).testBit =
        ((List.range (8 * k)).map (8 + ·)).map n.testBit := by
      rw [List.map_map]
      refine List.map_congr_left fun i _ => ?_
      rw [Function.comp_apply, show 256 = 2 ^ 8 from rfl, Nat.testBit_div_two_pow, Nat.add_comm]
    rw [leBytes, bitsOf_cons, ih, hlow, hhigh, ← List.map_append, ← List.range_add,
      show 8 + 8 * k = 8 * (k + 1) by omega]

theorem bitsOf_wordBytes (k : ℕ) (v : BitVec (8 * k)) : bitsOf (wordBytes k v) = bits v :=
  bitsOf_leBytes k v.toNat

/-! ## The registers -/

/-- The taps of `crc16`. -/
def taps16 : BitVec 16 := 0xA001

/-- The taps of `crc32`. -/
def taps32 : BitVec 32 := 0xEDB88320

/-- The inner loop of `crc16` is a run without input. -/
theorem crc16Bits_eq : ∀ (j : ℕ) (crc : BitVec 16),
    crc16Bits j crc = run taps16 (blank j) crc := by
  intro j
  induction j with
  | zero => exact fun _ => rfl
  | succ j ih =>
    intro crc
    have htest : (crc &&& 1 ≠ 0) = (crc.getLsbD 0 = true) := by
      rw [show (1 : BitVec 16) = 1#16 from rfl, BitVec.and_one_eq_setWidth_ofBool_getLsbD]
      cases crc.getLsbD 0 <;> simp
    have hturn : (if crc &&& 1 ≠ 0 then (crc >>> 1) ^^^ 0xA001 else crc >>> 1) =
        turn taps16 crc false := by
      simp only [htest, turn, taps16, Bool.xor_false]
    rw [crc16Bits, hturn, ih, blank, blank, List.replicate_succ, run_cons]

/-- **`crc16` is a shift register.** -/
theorem crc16_eq : ∀ (s : List Byte) (crc : BitVec 16),
    crc16 s crc = run taps16 (bitsOf s) crc := by
  intro s
  induction s with
  | nil => exact fun _ => rfl
  | cons b s ih =>
    intro crc
    -- the byte is xored in at once, which comes to the same
    have hbyte : crc16Bits 8 (crc ^^^ b.setWidth 16) = run taps16 (bits b) crc := by
      rw [crc16Bits_eq, run_eq_blank (bits b) crc (by rw [length_bits]; decide), word_bits,
        length_bits]
    rw [bitsOf_cons, run_append, ← hbyte, ← ih]
    rfl

/-- The inner loop of `crc32` reads the lowest bits of the `char`. -/
theorem crc32Bits_eq (sign : CharSign) : ∀ (input : List Bool) (ch : Byte) (crc : BitVec 32),
    input.length ≤ 8 → (∀ i : ℕ, i < input.length → input[i]? = some (ch.getLsbD i)) →
      crc32Bits sign input.length ch crc = run taps32 input crc := by
  intro input
  induction input with
  | nil => exact fun _ _ _ _ => rfl
  | cons b input ih =>
    intro ch crc hlen hbits
    rw [List.length_cons] at hlen
    have hlow : ch.getLsbD 0 = b := (Option.some.inj (hbits 0 (Nat.succ_pos _))).symm
    have hturn : (if (sign.promote ch ^^^ crc) &&& 1 ≠ 0 then crc >>> 1 ^^^ 0xEDB88320
        else crc >>> 1) = turn taps32 crc b := by
      simp only [CharSign.test_eq, hlow, turn, taps32]
      cases b <;> cases crc.getLsbD 0 <;> rfl
    rw [List.length_cons, crc32Bits]
    simp only [hturn]
    rw [ih _ _ (by omega) fun i hi => ?_, run_cons]
    have hnext := hbits (i + 1) (Nat.succ_lt_succ hi)
    rw [List.getElem?_cons_succ] at hnext
    rw [hnext, sign.getLsbD_shift (by omega)]

/-- **`crc32` is a shift register.** -/
theorem crc32_eq : ∀ (s : List Byte) (crc : BitVec 32),
    crc32 s crc = run taps32 (bitsOf s) crc := by
  intro s
  induction s with
  | nil => exact fun _ => rfl
  | cons b s ih =>
    intro crc
    have hbyte : crc32Bits .signed 8 b crc = run taps32 (bits b) crc := by
      have hinput := crc32Bits_eq .signed (bits b) b crc (Nat.le_of_eq (length_bits b))
        fun i hi => getElem?_bits b (by rwa [length_bits] at hi)
      rwa [length_bits] at hinput
    rw [bitsOf_cons, run_append, ← hbyte, ← ih]
    rfl

/-! ## What a packet leaves behind -/

/-- **The header of a packet leaves the register of `crc16` at zero.** -/
theorem Packet.residue_header (p : Packet) : run taps16 (bitsOf (p.bytes.take 12)) 0 = 0 := by
  have hheader : p.bytes.take 12 = p.header.front ++ wordBytes 2 p.header.checksum := by
    rw [Packet.bytes, List.take_left' p.header.length_toBytes]
    rfl
  have hsum : crc16 p.header.front 0 = p.header.checksum := rfl
  rw [hheader, bitsOf_append, bitsOf_wordBytes 2]
  refine (run_bits_eq_zero (by decide) _ _ _).mpr ?_
  rw [← crc16_eq, hsum]

/-- **The rest of a packet leaves the register of `crc32` at zero.** -/
theorem Packet.residue_payload (p : Packet) : run taps32 (bitsOf (p.bytes.drop 12)) 0 = 0 := by
  rw [p.drop_bytes, bitsOf_append, bitsOf_wordBytes 4]
  refine (run_bits_eq_zero (by decide) _ _ _).mpr ?_
  rw [← crc32_eq]

/-! ## Bursts -/

/-- The bits in which two strings of bytes differ are within a window. -/
def DiffersWithin (first width : ℕ) (P Q : List Byte) : Prop :=
  ∀ i : ℕ, (bitsOf P)[i]? ≠ (bitsOf Q)[i]? → first ≤ i ∧ i < first + width

/-- The bits in which two strings of bytes differ are behind the header. -/
def DiffersInPayload (P Q : List Byte) : Prop :=
  ∀ i : ℕ, (bitsOf P)[i]? ≠ (bitsOf Q)[i]? → 8 * 12 ≤ i

/-- The bits of the header, and of the rest. -/
theorem getElem?_bitsOf_cut {P : List Byte} {n : ℕ} (h : n ≤ P.length) :
    (∀ i : ℕ, i < 8 * n → (bitsOf (P.take n))[i]? = (bitsOf P)[i]?) ∧
      ∀ i : ℕ, (bitsOf (P.drop n))[i]? = (bitsOf P)[8 * n + i]? := by
  have hlen : (bitsOf (P.take n)).length = 8 * n := by
    rw [length_bitsOf, List.length_take_of_le h]
  have hcut : bitsOf P = bitsOf (P.take n) ++ bitsOf (P.drop n) := by
    rw [← bitsOf_append, List.take_append_drop]
  constructor
  · intro i hi
    rw [hcut, List.getElem?_append_left (by omega)]
  · intro i
    rw [hcut, List.getElem?_append_right (by omega), hlen, Nat.add_sub_cancel_left]

/-- **Packets of one length do not differ in a short burst.** -/
theorem Packet.bytes_eq_of_burst {p q : Packet} (hlen : q.bytes.length = p.bytes.length)
    {first : ℕ} (hburst : DiffersWithin first 16 p.bytes q.bytes ∨
      DiffersInPayload p.bytes q.bytes ∧ DiffersWithin first 32 p.bytes q.bytes) :
    p.bytes = q.bytes := by
  have hp : 12 ≤ p.bytes.length := by
    rw [p.length_bytes]
    omega
  obtain ⟨hfront, hback⟩ := getElem?_bitsOf_cut hp
  obtain ⟨hfront', hback'⟩ := getElem?_bitsOf_cut (hlen ▸ hp)
  have hsame : ∀ {bs cs : List Byte}, cs.length = bs.length →
      (bitsOf bs).length = (bitsOf cs).length := by
    intro bs cs h
    rw [length_bitsOf, length_bitsOf, h]
  have hheader : bitsOf (p.bytes.take 12) = bitsOf (q.bytes.take 12) := by
    have hwindow : ∀ i : ℕ, (bitsOf (p.bytes.take 12))[i]? ≠ (bitsOf (q.bytes.take 12))[i]? →
        first ≤ i ∧ i < first + 16 := by
      intro i hne
      have hi : i < 8 * 12 := by
        by_contra hge
        refine hne ?_
        rw [List.getElem?_eq_none, List.getElem?_eq_none]
        · rw [length_bitsOf, List.length_take]
          omega
        · rw [length_bitsOf, List.length_take]
          omega
      rw [hfront i hi, hfront' i hi] at hne
      rcases hburst with hburst | ⟨hpayload, -⟩
      · exact hburst i hne
      · exact absurd (hpayload i hne) (Nat.not_le_of_lt hi)
    exact eq_of_burst (by decide) (hsame (by rw [List.length_take, List.length_take, hlen]))
      (p.residue_header.trans q.residue_header.symm) hwindow
  have hrest : bitsOf (p.bytes.drop 12) = bitsOf (q.bytes.drop 12) := by
    have hwindow : ∀ i : ℕ, (bitsOf (p.bytes.drop 12))[i]? ≠ (bitsOf (q.bytes.drop 12))[i]? →
        first - 8 * 12 ≤ i ∧ i < first - 8 * 12 + 32 := by
      intro i hne
      rw [hback, hback'] at hne
      have hinside : first ≤ 8 * 12 + i ∧ 8 * 12 + i < first + 32 := by
        rcases hburst with hburst | ⟨-, hburst⟩
        · obtain ⟨hge, hlt⟩ := hburst _ hne
          exact ⟨hge, by omega⟩
        · exact hburst _ hne
      omega
    exact eq_of_burst (by decide) (hsame (by rw [List.length_drop, List.length_drop, hlen]))
      (p.residue_payload.trans q.residue_payload.symm) hwindow
  rw [← List.take_append_drop 12 p.bytes, bitsOf_injective hheader, bitsOf_injective hrest,
    List.take_append_drop]

/-- **Bursts are rejected.** A packet `P` that passes the dispatcher's checks after
decoding, whatever stale bytes `rest` stand behind it, and another one of the same
length: if they differ only within 16 consecutive bits, or only behind the header and
within 32 consecutive bits, a check rejects the other one. -/
theorem burst_rejected {P Q rest : List Byte} {n : ℕ} {buf : Buffer Byte n}
    (hbuf : buf.data = P ++ rest) {r : DashboardPacketHeader × List Byte}
    (hpass : decodedChecks buf P.length = some (.ok r)) (hlen : Q.length = P.length) (hne : Q ≠ P)
    (hburst : (∃ first, DiffersWithin first 16 P Q) ∨
      DiffersInPayload P Q ∧ ∃ first, DiffersWithin first 32 P Q) :
    ∀ {m : ℕ} (buf' : Buffer Byte m) (rest' : List Byte), buf'.data = Q ++ rest' →
      ∃ message, decodedChecks buf' Q.length = some (.error message) := by
  intro m buf' rest' hbuf'
  rcases decodedChecks_eq hbuf' with ⟨hQ, -⟩ | ⟨-, hrejected⟩
  · exfalso
    have hP : Sealed P := by
      rcases decodedChecks_eq hbuf with ⟨hP, -⟩ | ⟨-, message, herror⟩
      · exact hP
      · cases hpass.symm.trans herror
    obtain ⟨p, rfl⟩ := sealed_iff.mp hP
    obtain ⟨q, rfl⟩ := sealed_iff.mp hQ
    obtain ⟨first, hfirst⟩ : ∃ first, DiffersWithin first 16 p.bytes q.bytes ∨
        DiffersInPayload p.bytes q.bytes ∧ DiffersWithin first 32 p.bytes q.bytes := by
      rcases hburst with ⟨first, hburst⟩ | ⟨hpayload, first, hburst⟩
      · exact ⟨first, Or.inl hburst⟩
      · exact ⟨first, Or.inr ⟨hpayload, hburst⟩⟩
    exact hne (Packet.bytes_eq_of_burst hlen hfirst).symm
  · exact hrejected

/-- A reading with another number, and the checksum of the old one. -/
def misread : List Byte := reading.bytes.take 13 ++ ([0xf8, 0x10, 0, 0x80] ++ reading.bytes.drop 17)

/-- The number takes 32 bits behind the header. -/
theorem burst_rejected_misread :
    misread ≠ reading.bytes ∧ DiffersInPayload reading.bytes misread ∧
      DiffersWithin 104 32 reading.bytes misread ∧
      (∃ r, decodedChecks (Buffer.ofList reading.bytes) reading.bytes.length = some (.ok r)) ∧
      ∀ {m : ℕ} (buf' : Buffer Byte m) (rest' : List Byte), buf'.data = misread ++ rest' →
        ∃ message, decodedChecks buf' misread.length = some (.error message) := by
  have hwindow : DiffersWithin 104 32 reading.bytes misread := by
    intro i hne
    rcases Nat.lt_or_ge i 168 with hi | hi
    · revert hne
      revert i
      decide +kernel
    · refine absurd ?_ hne
      rw [List.getElem?_eq_none (by rw [length_bitsOf]; exact hi),
        List.getElem?_eq_none (by rw [length_bitsOf]; exact hi)]
  have hpayload : DiffersInPayload reading.bytes misread :=
    fun i hne => Nat.le_trans (by decide) (hwindow i hne).1
  have hdata : (Buffer.ofList reading.bytes).data = reading.bytes ++ [] := (List.append_nil _).symm
  obtain ⟨r, hr⟩ : ∃ r, decodedChecks (Buffer.ofList reading.bytes) reading.bytes.length =
      some (.ok r) := by
    rcases decodedChecks_eq hdata with ⟨-, hok⟩ | ⟨hnot, -⟩
    · exact ⟨_, hok⟩
    · exact absurd (Packet.sealed_bytes _) hnot
  have hne : misread ≠ reading.bytes := by decide +kernel
  exact ⟨hne, hpayload, hwindow, ⟨r, hr⟩, burst_rejected hdata hr (by decide +kernel) hne
    (Or.inr ⟨hpayload, 104, hwindow⟩)⟩

end Houston
