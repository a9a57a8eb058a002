import Houston.Memory
import Houston.Stuffing

/-!
# COBS: `cobs_encode` and `cobs_decode`

The framing layer of the wire protocol, as `dashboard/COBS.c` computes it: the
encoder back-patches the code byte of the open block, the decoder works in place
on a buffer whose code bytes it trusts only after a bounds check.

* `cobsEncode_eq` — the encoder refines `Stuffing.stuff`: it writes the stuffed
  frame if that fits, and says `NOT_ENOUGH_SPACE` if not.
* `cobsDecode_eq` — the decoder refines `Stuffing.unstuff` on the original
  contents, although it overwrites them on the way.
* `cobs_round_trip_iff` — when decoding gives back what was encoded. The encoder
  opens a new block only when a non-zero byte arrives behind a full one, so a
  zero behind a full block is swallowed.
-/

namespace Houston

open Stuffing

/-- Bytes as an alphabet for stuffing: `0x00` delimits, and a block carries at
most 254 bytes, its code `0xFF` being the largest byte. -/
instance : Alphabet Byte where
  zero := 0
  cap := 254
  code n := BitVec.ofNat 8 n
  val b := b.toNat
  cap_pos := by decide
  val_zero := rfl
  val_code := by
    intro n hn
    rw [BitVec.toNat_ofNat]
    exact Nat.mod_eq_of_lt (by omega)
  code_val b := BitVec.ofNat_toNat 8 b
  val_le b := by
    have := b.isLt
    omega

theorem zero_eq : (Alphabet.zero : Byte) = 0 := rfl

theorem cap_eq : Alphabet.cap Byte = 254 := rfl

theorem code_eq (n : ℕ) : (Alphabet.code n : Byte) = BitVec.ofNat 8 n := rfl

variable {n : ℕ}

/-! ## The encoder -/

/-- `COBS_Encoding_Status_t` -/
inductive CobsEncodingStatus where
  | ok
  | notEnoughSpace
  deriving DecidableEq, Repr

/-- The locals of `cobs_encode`, and the memory behind `dest`. -/
structure EncodeState (n : ℕ) where
  /-- the memory behind `dest` -/
  dest : Buffer Byte n
  /-- `write_index` -/
  writeIndex : ℕ
  /-- `code_index`, the place of the code byte to patch later -/
  codeIndex : ℕ
  /-- `counter`, a `uint8_t` -/
  counter : ℕ

/-- The tail of both non-zero branches: store the byte if there is space. -/
def storeByte (destSize : ℕ) (b : Byte) (s : EncodeState n) :
    Option (CobsEncodingStatus × EncodeState n) :=
  if s.writeIndex ≥ destSize then some (.notEnoughSpace, s)
  else do
    let dest ← s.dest.set? s.writeIndex b
    some (.ok, { s with
      dest := dest
      writeIndex := u32 (s.writeIndex + 1)
      counter := (s.counter + 1) % 256 })

/-- The body of the encoder's loop, for the byte `b = buf[read_index]`. -/
def encodeByte (destSize : ℕ) (b : Byte) (s : EncodeState n) :
    Option (CobsEncodingStatus × EncodeState n) :=
  if b = 0 then do
    let dest ← s.dest.set? s.codeIndex (BitVec.ofNat 8 s.counter)
    let s := { s with dest := dest, codeIndex := s.writeIndex, counter := 1 }
    if s.writeIndex ≥ destSize then some (.notEnoughSpace, s)
    else some (.ok, { s with writeIndex := u32 (s.writeIndex + 1) })
  else if s.counter = 0xFF then do
    let dest ← s.dest.set? s.codeIndex (BitVec.ofNat 8 s.counter)
    let s := { s with dest := dest, counter := 1, codeIndex := s.writeIndex }
    if s.writeIndex ≥ destSize then some (.notEnoughSpace, s)
    else storeByte destSize b { s with writeIndex := u32 (s.writeIndex + 1) }
  else storeByte destSize b s

/-- `while (read_index < buf_size)`: one turn for each byte of the input. -/
def encodeLoop (destSize : ℕ) :
    List Byte → EncodeState n → Option (CobsEncodingStatus × EncodeState n)
  | [], s => some (.ok, s)
  | b :: rest, s => do
    match ← encodeByte destSize b s with
    | (.ok, s) => encodeLoop destSize rest s
    | (.notEnoughSpace, s) => some (.notEnoughSpace, s)

/-- `cobs_encode(buf, buf_size, dest, &dest_size)`: `buf` stands for the
`buf_size` bytes of the input, and the result carries the new `dest_size`. -/
def cobsEncode (buf : List Byte) (dest : Buffer Byte n) (destSize : ℕ) :
    Option (CobsEncodingStatus × Buffer Byte n × ℕ) :=
  if destSize < 1 ∨ buf.length < 1 then some (.notEnoughSpace, dest, destSize)
  else do
    match ← encodeLoop destSize buf ⟨dest, 1, 0, 1⟩ with
    | (.notEnoughSpace, s) => some (.notEnoughSpace, s.dest, destSize)
    | (.ok, s) =>
      let dest ← s.dest.set? s.codeIndex (BitVec.ofNat 8 s.counter)
      if s.writeIndex ≥ destSize then some (.notEnoughSpace, dest, destSize)
      else
        let dest ← dest.set? s.writeIndex 0
        some (.ok, dest, u32 (s.writeIndex + 1))

/-! ### The encoder refines `stuff`

`Writing orig s out run` says where the encoder is: `out` is finished, the code
byte of the open block is still to be patched, the block holds `run`, and behind
it the destination is as it was. -/

/-- The encoder's loop invariant. -/
structure Writing (orig : List Byte) (destSize : ℕ) (s : EncodeState n) (out run : List Byte) :
    Prop where
  /-- finished output, a placeholder for the code, the data of the open block -/
  data : ∃ c, s.dest.data = out ++ c :: (run ++ orig.drop s.writeIndex)
  code : s.codeIndex = out.length
  write : s.writeIndex = out.length + 1 + run.length
  counter : s.counter = run.length + 1
  run_le : run.length ≤ 254
  write_le : s.writeIndex ≤ destSize

/-- The destination really has the space that `dest_size` promises. -/
structure Room (destSize n : ℕ) : Prop where
  le : destSize ≤ n
  lt : destSize < 2 ^ 32

variable {destSize : ℕ} {s : EncodeState n} {orig out run : List Byte}

theorem drop_succ_of_drop {l : List Byte} {i : ℕ} {b : Byte} {rest : List Byte}
    (h : l.drop i = b :: rest) : l.drop (i + 1) = rest := by
  rw [← List.tail_drop, h, List.tail_cons]

/-- The encoder starts with an open block without data. -/
theorem Writing.init (dest : Buffer Byte n) (hr : Room destSize n) (hpos : 0 < destSize) :
    Writing dest.data destSize ⟨dest, 1, 0, 1⟩ [] [] := by
  refine ⟨?_, rfl, rfl, rfl, Nat.zero_le _, hpos⟩
  rcases hd : dest.data with - | ⟨c, rest⟩
  · have hlen := Buffer.length_eq_of_eq hd
    have := hr.le
    rw [List.length_nil] at hlen
    omega
  · exact ⟨c, rfl⟩

/-- Patching the code byte of the open block finishes it. -/
theorem Writing.patch (hw : Writing orig destSize s out run) :
    ∃ dest, s.dest.set? s.codeIndex (BitVec.ofNat 8 s.counter) = some dest ∧
      dest.data = (out ++ Alphabet.code (run.length + 1) :: run) ++ orig.drop s.writeIndex := by
  obtain ⟨c, hdata⟩ := hw.data
  obtain ⟨dest, hset, hdest⟩ := Buffer.exists_set? hdata (BitVec.ofNat 8 s.counter)
  refine ⟨dest, by rw [hw.code]; exact hset, ?_⟩
  rw [hdest, hw.counter, code_eq]
  simp

/-- The place for the next code byte is reserved right behind a finished block. -/
theorem Writing.reserve (hr : Room destSize n) (s' : EncodeState n) {fin : List Byte}
    (hdata : s'.dest.data = fin ++ orig.drop s'.writeIndex) (hcode : s'.codeIndex = fin.length)
    (hwrite : s'.writeIndex = fin.length) (hcounter : s'.counter = 1)
    (hspace : s'.writeIndex < destSize) :
    Writing orig destSize { s' with writeIndex := u32 (s'.writeIndex + 1) } fin [] := by
  have hlen := Buffer.length_eq_of_eq hdata
  have := hr.le
  have := hr.lt
  have hnext := u32_of_lt (show s'.writeIndex + 1 < 2 ^ 32 by omega)
  rcases hrest : orig.drop s'.writeIndex with - | ⟨c, rest⟩
  · rw [hrest, List.append_nil] at hlen
    omega
  · refine ⟨⟨c, ?_⟩, hcode, ?_, by simpa using hcounter, by simp, ?_⟩
    · rw [hnext, drop_succ_of_drop hrest, List.nil_append, hdata, hrest]
    · rw [hnext, hwrite, List.length_nil]
    · rw [hnext]
      exact hspace

/-- Storing a data byte, when the block is not full. -/
theorem Writing.store (hr : Room destSize n) (hw : Writing orig destSize s out run) (b : Byte)
    (hrun : run.length < 254) :
    (destSize ≤ s.writeIndex ∧ storeByte destSize b s = some (.notEnoughSpace, s)) ∨
      ∃ s', storeByte destSize b s = some (.ok, s') ∧
        Writing orig destSize s' out (run ++ [b]) := by
  have := hr.le
  have := hr.lt
  by_cases hspace : s.writeIndex ≥ destSize
  · exact Or.inl ⟨hspace, if_pos hspace⟩
  · obtain ⟨c, hdata⟩ := hw.data
    have hlen := Buffer.length_eq_of_eq hdata
    have hwrite := hw.write
    have hidx : (out ++ c :: run).length = s.writeIndex := by
      rw [hwrite, List.length_append, List.length_cons]
      omega
    rcases hrest : orig.drop s.writeIndex with - | ⟨x, rest⟩
    · rw [hrest, List.append_nil, hidx] at hlen
      omega
    · have hdata' : s.dest.data = (out ++ c :: run) ++ x :: rest := by
        rw [hdata, hrest, List.append_assoc, List.cons_append]
      obtain ⟨dest, hset, hdest⟩ := Buffer.exists_set? hdata' b
      rw [hidx] at hset
      have hnext := u32_of_lt (show s.writeIndex + 1 < 2 ^ 32 by omega)
      have hrun' : (run ++ [b]).length = run.length + 1 := by simp
      refine Or.inr ⟨{ s with
        dest := dest
        writeIndex := u32 (s.writeIndex + 1)
        counter := (s.counter + 1) % 256 }, ?_, ?_⟩
      · rw [storeByte, if_neg hspace, hset]
        rfl
      · refine ⟨⟨c, ?_⟩, hw.code, ?_, ?_, by omega, ?_⟩
        · rw [hnext, drop_succ_of_drop hrest, hdest]
          simp
        · show u32 (s.writeIndex + 1) = out.length + 1 + (run ++ [b]).length
          omega
        · simp only [hw.counter, hrun']
          omega
        · rw [hnext]
          exact Nat.lt_of_not_le hspace

/-- One turn of the encoder's loop: it goes on as `stuffFrom` does, or it has run
out of space and the frame would not have fitted. -/
theorem encodeByte_writing (hr : Room destSize n) (hw : Writing orig destSize s out run)
    (b : Byte) :
    (∃ s' out' run', encodeByte destSize b s = some (.ok, s') ∧
        Writing orig destSize s' out' run' ∧
        ∀ xs, out' ++ stuffFrom run' xs = out ++ stuffFrom run (b :: xs)) ∨
      ∃ s', encodeByte destSize b s = some (.notEnoughSpace, s') ∧
        ∀ xs, destSize < (out ++ stuffFrom run (b :: xs)).length := by
  have hrun := hw.run_le
  have hwrite := hw.write
  -- closing the block needs a place for the next code byte
  obtain ⟨dest, hset, hdest⟩ := hw.patch
  have hfin : (out ++ Alphabet.code (run.length + 1) :: run).length = s.writeIndex := by
    simp only [List.length_append, List.length_cons]
    omega
  have hlong : ∀ run' xs : List Byte, run'.length ≤ 254 → destSize ≤ s.writeIndex + run'.length →
      destSize < (out ++ Alphabet.code (run.length + 1) :: (run ++ stuffFrom run' xs)).length := by
    intro run' xs hrun' hspace
    have := length_stuffFrom xs run' hrun'
    simp only [List.length_append, List.length_cons]
    omega
  have hopen := Writing.reserve hr { s with dest := dest, codeIndex := s.writeIndex, counter := 1 }
    hdest hfin.symm hfin.symm rfl
  by_cases hb : b = 0
  · subst hb
    by_cases hspace : s.writeIndex ≥ destSize
    · refine Or.inr ⟨{ s with dest := dest, codeIndex := s.writeIndex, counter := 1 }, ?_,
        fun xs => ?_⟩
      · simp only [encodeByte, if_pos, hset, Option.bind_eq_bind, Option.bind_some, hspace]
      · rw [← zero_eq, stuffFrom_zero]
        exact hlong [] xs (Nat.zero_le _) hspace
    · refine Or.inl ⟨_, _, _, ?_, hopen (Nat.lt_of_not_le hspace), fun xs => ?_⟩
      · simp only [encodeByte, if_pos, hset, Option.bind_eq_bind, Option.bind_some,
          if_neg hspace]
      · rw [← zero_eq, stuffFrom_zero]
        simp
  · have hcounter : s.counter = 0xFF ↔ run.length = 254 := by
      rw [hw.counter]
      omega
    by_cases hfull : run.length = 254
    · -- a full block is closed by the non-zero byte behind it, which opens the next
      by_cases hspace : s.writeIndex ≥ destSize
      · refine Or.inr ⟨{ s with dest := dest, counter := 1, codeIndex := s.writeIndex }, ?_,
          fun xs => ?_⟩
        · simp only [encodeByte, if_neg hb, if_pos (hcounter.mpr hfull), hset,
            Option.bind_eq_bind, Option.bind_some, if_pos hspace]
        · rw [stuffFrom_full hb hfull]
          exact hlong [b] xs (by simp) (by simp; omega)
      · have hstep : encodeByte destSize b s = storeByte destSize b
            { dest := dest, writeIndex := u32 (s.writeIndex + 1), codeIndex := s.writeIndex,
              counter := 1 } := by
          simp only [encodeByte, if_neg hb, if_pos (hcounter.mpr hfull), hset,
            Option.bind_eq_bind, Option.bind_some, if_neg hspace]
        have hnext := u32_of_lt (show s.writeIndex + 1 < 2 ^ 32 by have := hr.lt; omega)
        rw [hstep]
        rcases (hopen (Nat.lt_of_not_le hspace)).store hr b (by simp) with
          ⟨hspace', hstore⟩ | ⟨s', hstore, hw'⟩
        · refine Or.inr ⟨_, hstore, fun xs => ?_⟩
          rw [stuffFrom_full hb hfull]
          simp only [hnext] at hspace'
          exact hlong [b] xs (by simp) (by simpa using hspace')
        · refine Or.inl ⟨s', _, _, hstore, hw', fun xs => ?_⟩
          rw [stuffFrom_full hb hfull]
          simp
    · have hstep : encodeByte destSize b s = storeByte destSize b s := by
        simp only [encodeByte, if_neg hb, if_neg (mt hcounter.mp hfull)]
      rw [hstep]
      rcases hw.store hr b (by omega) with ⟨hspace, hstore⟩ | ⟨s', hstore, hw'⟩
      · refine Or.inr ⟨s, hstore, fun xs => ?_⟩
        rw [stuffFrom_data hb hfull, List.length_append,
          length_stuffFrom xs (run ++ [b]) (by simp [cap_eq]; omega), List.length_append]
        simp only [List.length_singleton]
        omega
      · refine Or.inl ⟨s', _, _, hstore, hw', fun xs => ?_⟩
        rw [stuffFrom_data hb hfull]

/-- The whole loop, by induction on the input. -/
theorem encodeLoop_writing (hr : Room destSize n) :
    ∀ (xs : List Byte) {s : EncodeState n} {out run : List Byte},
      Writing orig destSize s out run →
      (∃ s' out' run', encodeLoop destSize xs s = some (.ok, s') ∧
          Writing orig destSize s' out' run' ∧
          out' ++ stuffFrom run' [] = out ++ stuffFrom run xs) ∨
        ∃ s', encodeLoop destSize xs s = some (.notEnoughSpace, s') ∧
          destSize < (out ++ stuffFrom run xs).length := by
  intro xs
  induction xs with
  | nil => exact fun {s out run} hw => Or.inl ⟨s, out, run, rfl, hw, rfl⟩
  | cons b xs ih =>
    intro s out run hw
    rcases encodeByte_writing hr hw b with ⟨s', out', run', hstep, hw', hstuff⟩ |
      ⟨s', hstep, hlong⟩
    · rw [encodeLoop, hstep, Option.bind_eq_bind, Option.bind_some, ← hstuff xs]
      exact ih hw'
    · exact Or.inr ⟨s', by rw [encodeLoop, hstep]; rfl, hlong xs⟩

/-- **The encoder refines `stuff`**: it never leaves its buffer, the frame is written
whole exactly when it fits, and nothing behind it is touched then. -/
theorem cobsEncode_eq {x : List Byte} (hx : x ≠ []) (dest : Buffer Byte n) (hr : Room destSize n)
    (hpos : 0 < destSize) :
    (destSize < (stuff x).length ∧
        ∃ dest', cobsEncode x dest destSize = some (.notEnoughSpace, dest', destSize)) ∨
      ((stuff x).length ≤ destSize ∧
        ∃ dest', cobsEncode x dest destSize = some (.ok, dest', (stuff x).length) ∧
          dest.memcpy 0 (stuff x) = some dest') := by
  have := hr.le
  have := hr.lt
  have hguard : ¬ (destSize < 1 ∨ x.length < 1) := by
    have := List.length_pos_of_ne_nil hx
    omega
  rcases encodeLoop_writing hr x (Writing.init dest hr hpos) with ⟨s, out, run, hloop, hw, hstuff⟩ | ⟨s, hloop, hlong⟩
  · rw [List.nil_append, ← stuff] at hstuff
    obtain ⟨dest', hset, hdest⟩ := hw.patch
    have hwrite := hw.write
    have hfin : (out ++ Alphabet.code (run.length + 1) :: run).length = s.writeIndex := by
      simp only [List.length_append, List.length_cons]
      omega
    have hframe : stuff x = (out ++ Alphabet.code (run.length + 1) :: run) ++ [0] := by
      rw [← hstuff, stuffFrom, zero_eq]
      simp
    have hlen : (stuff x).length = s.writeIndex + 1 := by
      rw [hframe, List.length_append, hfin, List.length_singleton]
    by_cases hspace : s.writeIndex ≥ destSize
    · refine Or.inl ⟨by omega, dest', ?_⟩
      simp only [cobsEncode, if_neg hguard, hloop, hset, Option.bind_eq_bind, Option.bind_some,
        if_pos hspace]
    · have hlen' := Buffer.length_eq_of_eq hdest
      rcases hrest : dest.data.drop s.writeIndex with - | ⟨c, rest⟩
      · rw [hrest, List.append_nil, hfin] at hlen'
        omega
      · rw [hrest] at hdest
        obtain ⟨dest'', hset', hdest'⟩ := Buffer.exists_set? hdest 0
        rw [hfin] at hset'
        refine Or.inr ⟨by omega, dest'', ?_, ?_⟩
        · simp only [cobsEncode, if_neg hguard, hloop, hset, Option.bind_eq_bind,
            Option.bind_some, if_neg hspace, hset', hlen,
            u32_of_lt (show s.writeIndex + 1 < 2 ^ 32 by omega)]
        · refine Buffer.memcpy_eq_of_data (by omega) ?_
          rw [Nat.zero_add, hlen, drop_succ_of_drop hrest, hdest', hframe]
          simp
  · rw [List.nil_append, ← stuff] at hlong
    refine Or.inl ⟨hlong, s.dest, ?_⟩
    simp only [cobsEncode, if_neg hguard, hloop, Option.bind_eq_bind, Option.bind_some]

/-! ## The decoder -/

/-- `COBS_Decoding_Status_t` -/
inductive CobsDecodingStatus where
  | ok
  | invalidBufferSize
  | invalidDataSize
  deriving DecidableEq, Repr

/-- The locals of `cobs_decode`, and the buffer it works on. -/
structure DecodeState (n : ℕ) where
  /-- the buffer, input and output at once -/
  buf : Buffer Byte n
  /-- `read_idx` -/
  readIdx : ℕ
  /-- `write_idx` -/
  writeIdx : ℕ
  /-- `counter`, the code byte of the current block -/
  counter : Byte

/-- `for (i = 0; i < counter - 1; i++)` with `k` turns left. -/
def copyBlock : ℕ → ℕ → DecodeState n → Option (DecodeState n)
  | 0, _, s => some s
  | k + 1, i, s => do
    let b ← s.buf.get? (u32 (s.readIdx + i))
    let buf ← s.buf.set? s.writeIdx b
    copyBlock k (i + 1) { s with buf := buf, writeIdx := u32 (s.writeIdx + 1) }

/-- The body of the decoder's loop. -/
def decodeBlock (bufSize : ℕ) (s : DecodeState n) :
    Option (CobsDecodingStatus × DecodeState n) :=
  if u32 (s.readIdx + s.counter.toNat - 1) ≥ bufSize then some (.invalidDataSize, s)
  else do
    let s ← copyBlock (s.counter.toNat - 1) 0 s
    let readIdx := u32 (s.readIdx + s.counter.toNat - 1)
    let nextCounter ← s.buf.get? readIdx
    let s := { s with readIdx := u32 (readIdx + 1) }
    if s.counter ≠ 0xFF ∧ nextCounter ≠ 0 then
      let buf ← s.buf.set? s.writeIdx 0
      some (.ok, { s with
        buf := buf
        writeIdx := u32 (s.writeIdx + 1)
        counter := nextCounter })
    else some (.ok, { s with counter := nextCounter })

/-- `while (counter != 0)`, for at most `fuel` turns. -/
def decodeLoop (bufSize : ℕ) :
    ℕ → DecodeState n → Option (CobsDecodingStatus × DecodeState n)
  | 0, _ => none
  | fuel + 1, s =>
    if s.counter = 0 then some (.ok, s)
    else do
      match ← decodeBlock bufSize s with
      | (.ok, s) => decodeLoop bufSize fuel s
      | (st, s) => some (st, s)

/-- `cobs_decode(buf, buf_size, &write_size)`: the result carries the buffer and
the new `write_size`. Each turn moves `read_idx` on, so `buf_size` turns suffice. -/
def cobsDecode (buf : Buffer Byte n) (bufSize writeSize : ℕ) :
    Option (CobsDecodingStatus × Buffer Byte n × ℕ) :=
  if bufSize ≤ 1 then some (.invalidBufferSize, buf, writeSize)
  else do
    let counter ← buf.get? 0
    match ← decodeLoop bufSize (bufSize + 1) ⟨buf, 1, 0, counter⟩ with
    | (.ok, s) =>
      if s.readIdx ≠ bufSize then some (.invalidDataSize, s.buf, writeSize)
      else some (.ok, s.buf, s.writeIdx)
    | (st, s) => some (st, s.buf, writeSize)

/-! ### The decoder refines `unstuff`

`Reading s out l` says where the decoder is: `out` is written, the bytes `l` of
the input are still to be read, and at least one byte lies between the two — the
decoder never overtakes itself. -/

/-- The decoder's loop invariant. -/
structure Reading (s : DecodeState n) (out l : List Byte) : Prop where
  /-- output, the gap, the input not yet read -/
  data : ∃ gap, s.buf.data = out ++ (gap ++ l) ∧ s.readIdx = out.length + gap.length ∧ gap ≠ []
  write : s.writeIdx = out.length

variable {s : DecodeState n} {out l : List Byte}

theorem Reading.length_add (hr : Reading s out l) : s.readIdx + l.length = n := by
  obtain ⟨gap, hdata, hread, -⟩ := hr.data
  have hlen := Buffer.length_eq_of_eq hdata
  simp only [List.length_append] at hlen
  omega

/-- The gap starts at `write_idx`, so a byte can be written there. -/
theorem Reading.push (hn : n < 2 ^ 31) {gap : List Byte}
    (hdata : s.buf.data = out ++ (gap ++ l)) (hgap : gap ≠ []) (hwrite : s.writeIdx = out.length)
    (b : Byte) :
    ∃ buf gap', s.buf.set? s.writeIdx b = some buf ∧ buf.data = (out ++ [b]) ++ (gap' ++ l) ∧
      gap'.length + 1 = gap.length ∧ u32 (s.writeIdx + 1) = (out ++ [b]).length := by
  rcases gap with - | ⟨g, gap⟩
  · exact absurd rfl hgap
  · obtain ⟨buf, hset, hbuf⟩ := Buffer.exists_set? (x := g) (by simpa using hdata) b
    have hlen := Buffer.length_eq_of_eq hdata
    simp only [List.length_append, List.length_cons] at hlen
    refine ⟨buf, gap, by rw [hwrite]; exact hset, by simpa using hbuf, by simp, ?_⟩
    rw [u32_of_lt (by omega), hwrite]
    simp

/-- Copying the data of a block: the gap keeps its length while it moves. -/
theorem copyBlock_eq (hn : n < 2 ^ 31) :
    ∀ (data : List Byte) (i : ℕ) (s : DecodeState n) (out gap l : List Byte),
      s.buf.data = out ++ (gap ++ (data ++ l)) → s.readIdx + i = out.length + gap.length →
      gap ≠ [] → s.writeIdx = out.length →
      ∃ s' gap', copyBlock data.length i s = some s' ∧
        s'.buf.data = (out ++ data) ++ (gap' ++ l) ∧ gap'.length = gap.length ∧
        s'.readIdx = s.readIdx ∧ s'.writeIdx = (out ++ data).length ∧ s'.counter = s.counter := by
  intro data
  induction data with
  | nil =>
    intro i s out gap l hdata hread hgap hwrite
    exact ⟨s, gap, rfl, by simpa using hdata, rfl, rfl, by simpa using hwrite, rfl⟩
  | cons b data ih =>
    intro i s out gap l hdata hread hgap hwrite
    have hget : s.buf.get? (u32 (s.readIdx + i)) = some b := by
      have hlen := Buffer.length_eq_of_eq hdata
      simp only [List.length_append, List.length_cons] at hlen
      rw [u32_of_lt (by omega), hread, ← List.length_append]
      exact Buffer.get?_of_eq (by simpa using hdata)
    obtain ⟨buf, gap', hset, hbuf, hgap', hnext⟩ :=
      Reading.push hn hdata hgap hwrite b
    obtain ⟨s', gap'', hcopy, hdata', hlen', hread', hwrite', hcounter'⟩ :=
      ih (i + 1) { s with buf := buf, writeIdx := u32 (s.writeIdx + 1) } (out ++ [b])
        (gap' ++ [b]) l (by simpa using hbuf)
        (by simp only [List.length_append, List.length_singleton]; omega) (by simp) hnext
    refine ⟨s', gap'', ?_, by simpa using hdata', by simp at hlen'; omega, hread',
      by simpa using hwrite', hcounter'⟩
    rw [List.length_cons, copyBlock, hget, Option.bind_eq_bind, Option.bind_some, hset]
    exact hcopy

/-- One turn of the decoder's loop: the block is cut short, or it is copied and
the next code byte is read. -/
theorem decodeBlock_reading (hn : n < 2 ^ 31) (hr : Reading s out l) (hc : s.counter ≠ 0) :
    (l.length < s.counter.toNat ∧ decodeBlock n s = some (.invalidDataSize, s)) ∨
      ∃ data c' l' s', l = data ++ c' :: l' ∧ data.length = s.counter.toNat - 1 ∧
        decodeBlock n s = some (.ok, s') ∧ s'.counter = c' ∧
        Reading s' (out ++ (data ++ if s.counter ≠ 0xFF ∧ c' ≠ 0 then [0] else [])) l' := by
  have hadd := hr.length_add
  have hpos : 0 < s.counter.toNat := by
    rw [Nat.pos_iff_ne_zero]
    exact fun h => hc (BitVec.eq_of_toNat_eq h)
  have hbyte := s.counter.isLt
  have hidx := u32_of_lt (show s.readIdx + s.counter.toNat - 1 < 2 ^ 32 by omega)
  by_cases hshort : l.length < s.counter.toNat
  · refine Or.inl ⟨hshort, ?_⟩
    rw [decodeBlock, hidx, if_pos (by omega)]
  · -- the data of the block, and the code byte behind it
    obtain ⟨data, rest, rfl, hdata⟩ : ∃ data rest, l = data ++ rest ∧
        data.length = s.counter.toNat - 1 :=
      ⟨_, _, (List.take_append_drop (s.counter.toNat - 1) l).symm, by
        rw [List.length_take]
        omega⟩
    rcases rest with - | ⟨c', l'⟩
    · simp at hshort
      omega
    · obtain ⟨gap, hbuf, hread, hgap⟩ := hr.data
      obtain ⟨s', gap', hcopy, hbuf', hgap', hread', hwrite', hcounter'⟩ :=
        copyBlock_eq hn data 0 s out gap (c' :: l') hbuf hread hgap hr.write
      have hget : s'.buf.get? (u32 (s'.readIdx + s'.counter.toNat - 1)) = some c' := by
        rw [hread', hcounter', hidx]
        have hpre : s.readIdx + s.counter.toNat - 1 = (out ++ data ++ gap').length := by
          simp only [List.length_append]
          omega
        rw [hpre]
        exact Buffer.get?_of_eq (by simpa using hbuf')
      have hlen' := Buffer.length_eq_of_eq hbuf'
      simp only [List.length_append, List.length_cons] at hlen'
      have hnext : u32 (u32 (s.readIdx + s.counter.toNat - 1) + 1) =
          out.length + data.length + (gap' ++ [c']).length := by
        rw [hidx, u32_of_lt (by omega), List.length_append, List.length_singleton]
        omega
      have hbuf'' : s'.buf.data = (out ++ data) ++ ((gap' ++ [c']) ++ l') := by simpa using hbuf'
      have hblock : decodeBlock n s =
          if s.counter ≠ 0xFF ∧ c' ≠ 0 then (s'.buf.set? s'.writeIdx 0).bind fun buf =>
            some (.ok, { s' with
              buf := buf
              readIdx := u32 (u32 (s.readIdx + s.counter.toNat - 1) + 1)
              writeIdx := u32 (s'.writeIdx + 1)
              counter := c' })
          else some (.ok, { s' with
            readIdx := u32 (u32 (s.readIdx + s.counter.toNat - 1) + 1)
            counter := c' }) := by
        rw [decodeBlock, hidx, if_neg (by omega), ← hdata, hcopy]
        simp only [Option.bind_eq_bind, Option.bind_some, hget]
        simp only [hread', hcounter', hidx]
      by_cases hzero : s.counter ≠ 0xFF ∧ c' ≠ 0
      · -- the block was not full and is not the last: it implies a zero
        obtain ⟨buf, gap'', hset, hdata'', hlen'', hwrite''⟩ :=
          Reading.push hn hbuf'' (by simp) hwrite' 0
        refine Or.inr ⟨data, c', l', _, rfl, hdata, by rw [hblock, if_pos hzero, hset]; rfl, rfl,
          ⟨gap'', ?_, ?_, ?_⟩, ?_⟩
        · rw [if_pos hzero]
          simpa using hdata''
        · rw [if_pos hzero, hnext, ← hlen'']
          simp only [List.length_append, List.length_singleton]
          omega
        · rintro rfl
          simp only [List.length_append, List.length_singleton, List.length_nil] at hlen''
          have := List.length_pos_of_ne_nil hgap
          omega
        · rw [if_pos hzero, hwrite'']
          simp
      · refine Or.inr ⟨data, c', l', _, rfl, hdata, by rw [hblock, if_neg hzero], rfl,
          ⟨gap' ++ [c'], ?_, ?_, by simp⟩, ?_⟩
        · rw [if_neg hzero]
          simpa using hbuf'
        · rw [if_neg hzero, hnext]
          simp
        · rw [if_neg hzero]
          simpa using hwrite'

/-- The whole loop, by induction on the turns left: the code byte in hand and the
input not yet read are a frame of their own. -/
theorem decodeLoop_reading (hn : n < 2 ^ 31) :
    ∀ (fuel : ℕ) {s : DecodeState n} {out l : List Byte}, Reading s out l → l.length < fuel →
      (∃ y s', unstuff (s.counter :: l) = some y ∧ decodeLoop n fuel s = some (.ok, s') ∧
          s'.readIdx = n ∧ Reading s' (out ++ y) []) ∨
        (unstuff (s.counter :: l) = none ∧
          ((∃ s', decodeLoop n fuel s = some (.ok, s') ∧ s'.readIdx ≠ n) ∨
            ∃ s', decodeLoop n fuel s = some (.invalidDataSize, s'))) := by
  intro fuel
  induction fuel with
  | zero => exact fun _ h => absurd h (Nat.not_lt_zero _)
  | succ fuel ih =>
    intro s out l hr hfuel
    by_cases hc : s.counter = 0
    · -- the delimiter: it has to be the last byte
      have hloop : decodeLoop n (fuel + 1) s = some (.ok, s) := by rw [decodeLoop, if_pos hc]
      have hadd := hr.length_add
      have hun : unstuff (s.counter :: l) = if l = [] then some [] else none := by
        rw [unstuff, unstuffFrom, if_pos rfl, if_pos (show s.counter = Alphabet.zero from hc)]
      rw [hun]
      rcases l with - | ⟨b, l⟩
      · exact Or.inl ⟨[], s, rfl, hloop, by simpa using hadd, by simpa using hr⟩
      · refine Or.inr ⟨rfl, Or.inl ⟨s, hloop, ?_⟩⟩
        rw [List.length_cons] at hadd
        omega
    · rcases decodeBlock_reading hn hr hc with ⟨hshort, hblock⟩ |
        ⟨data, c', l', s', rfl, hdata, hblock, hc', hr'⟩
      · refine Or.inr ⟨unstuff_eq_none hc hshort, Or.inr ⟨s, ?_⟩⟩
        rw [decodeLoop, if_neg hc, hblock]
        rfl
      · have hloop : decodeLoop n (fuel + 1) s = decodeLoop n fuel s' := by
          rw [decodeLoop, if_neg hc, hblock]
          rfl
        have himplied : (Alphabet.val s.counter ≠ Alphabet.cap Byte + 1 ∧ c' ≠ Alphabet.zero) ↔
            (s.counter ≠ 0xFF ∧ c' ≠ 0) :=
          and_congr_left' (not_congr ⟨fun h => BitVec.eq_of_toNat_eq h, fun h => by rw [h]; rfl⟩)
        have hun : unstuff (s.counter :: (data ++ c' :: l')) = (unstuff (s'.counter :: l')).map
            fun y => data ++ ((if s.counter ≠ 0xFF ∧ c' ≠ 0 then [0] else []) ++ y) := by
          rw [unstuff_block hc hdata, hc']
          congr 1
          funext y
          by_cases hzero : s.counter ≠ 0xFF ∧ c' ≠ 0
          · rw [if_pos (himplied.mpr hzero), if_pos hzero]
            rfl
          · rw [if_neg (mt himplied.mp hzero), if_neg hzero]
            rfl
        rw [hun, hloop]
        simp only [List.length_append, List.length_cons] at hfuel
        rcases ih hr' (by omega) with ⟨y, s'', hy, hl, hread, hr''⟩ | ⟨hy, hl⟩
        · exact Or.inl ⟨_, s'', by rw [hy]; rfl, hl, hread, by simpa using hr''⟩
        · exact Or.inr ⟨by rw [hy]; rfl, hl⟩

/-- **The decoder refines `unstuff`** on the contents it started from: it
terminates, never leaves its buffer, and its status and output are those of the
receiver that reads the frame unchanged. -/
theorem cobsDecode_eq (hn : n < 2 ^ 31) (buf : Buffer Byte n) (writeSize : ℕ) :
    (∃ y buf' rest, unstuff buf.data = some y ∧ 1 < n ∧
        cobsDecode buf n writeSize = some (.ok, buf', y.length) ∧ buf'.data = y ++ rest ∧
        y.length + 2 ≤ n) ∨
      ((unstuff buf.data = none ∨ n ≤ 1) ∧
        ∃ st buf', cobsDecode buf n writeSize = some (st, buf', writeSize) ∧ st ≠ .ok) := by
  by_cases hsize : n ≤ 1
  · exact Or.inr ⟨Or.inr hsize, .invalidBufferSize, buf, if_pos hsize, by decide⟩
  · rcases hd : buf.data with - | ⟨c, l⟩
    · have hlen := Buffer.length_eq_of_eq hd
      rw [List.length_nil] at hlen
      omega
    · have hlen := Buffer.length_eq_of_eq hd
      rw [List.length_cons] at hlen
      have hget : buf.get? 0 = some c := Buffer.get?_of_eq (show buf.data = [] ++ c :: l from hd)
      have hinit : Reading (⟨buf, 1, 0, c⟩ : DecodeState n) [] l :=
        ⟨⟨[c], hd, rfl, by simp⟩, rfl⟩
      rcases decodeLoop_reading hn (n + 1) hinit (by omega) with
        ⟨y, s, hy, hloop, hread, hr⟩ | ⟨hy, ⟨s, hloop, hread⟩ | ⟨s, hloop⟩⟩
      · obtain ⟨gap, hdata, hgap, hne⟩ := hr.data
        have hwrite := hr.write
        rw [List.nil_append] at hdata hwrite
        have hspare := length_unstuff hy (by rw [List.length_cons]; omega)
        rw [List.length_cons] at hspare
        refine Or.inl ⟨y, s.buf, gap, hy, by omega, ?_, by simpa using hdata, by omega⟩
        simp only [cobsDecode, if_neg hsize, hget, Option.bind_eq_bind, Option.bind_some, hloop,
          if_neg (not_not_intro hread), hwrite]
      · refine Or.inr ⟨Or.inl hy, .invalidDataSize, s.buf, ?_, by decide⟩
        simp only [cobsDecode, if_neg hsize, hget, Option.bind_eq_bind, Option.bind_some, hloop,
          if_pos hread]
      · refine Or.inr ⟨Or.inl hy, .invalidDataSize, s.buf, ?_, by decide⟩
        simp only [cobsDecode, if_neg hsize, hget, Option.bind_eq_bind, Option.bind_some, hloop]

/-! ## The round trip

What the decoder makes of the encoder's output. The encoder closes a full block
when the next byte arrives; if that byte is a zero, the code `0xFF` in front of
it implies none, and the decoder never sees the zero. -/

/-- Decoding an encoded message yields `recovered`: the message without the zeros
that stand right behind a full block. -/
theorem cobsDecode_cobsEncode {x : List Byte} (hx : x ≠ [])
    (hlen : x.length + x.length / 254 + 2 < 2 ^ 31) {dest dest' : Buffer Byte n}
    {destSize size : ℕ} (hr : Room destSize n)
    (henc : cobsEncode x dest destSize = some (.ok, dest', size)) (writeSize : ℕ) :
    ∃ buf' rest, cobsDecode (Buffer.ofList (dest'.data.take size)) size writeSize =
        some (.ok, buf', (recovered 0 x).length) ∧ buf'.data = recovered 0 x ++ rest := by
  have hpos : 0 < destSize := by
    by_contra hzero
    rw [cobsEncode, if_pos (Or.inl (by omega))] at henc
    simp at henc
  rcases cobsEncode_eq hx dest hr hpos with ⟨-, dest'', hfull⟩ | ⟨hfits, dest'', hok, hcopy⟩
  · rw [hfull] at henc
    simp at henc
  · obtain ⟨rfl, rfl⟩ : dest'' = dest' ∧ (stuff x).length = size := by
      rw [hok] at henc
      simpa using henc
    have hframe : dest''.data.take (stuff x).length = stuff x := Buffer.take_of_memcpy hcopy
    rw [hframe]
    have hshort := length_stuff_le x
    rw [cap_eq] at hshort
    rcases cobsDecode_eq (by omega) (Buffer.ofList (stuff x)) writeSize with
      ⟨y, buf', rest', hy, -, hdec, hdata', -⟩ | ⟨hnone, -⟩
    · obtain rfl : recovered 0 x = y := Option.some.inj ((unstuff_stuff x).symm.trans hy)
      exact ⟨buf', rest', hdec, hdata'⟩
    · have hlong := length_stuff x
      rcases hnone with hnone | hsmall
      · cases (unstuff_stuff x).symm.trans hnone
      · omega

/-- **Round trip**: decoding gives back what was encoded if and only if no run of
non-zero bytes in front of a zero is a positive multiple of 254 bytes long. -/
theorem cobs_round_trip_iff {x : List Byte} (hx : x ≠ [])
    (hlen : x.length + x.length / 254 + 2 < 2 ^ 31) {dest dest' : Buffer Byte n}
    {destSize size : ℕ} (hr : Room destSize n)
    (henc : cobsEncode x dest destSize = some (.ok, dest', size)) (writeSize : ℕ) :
    (∃ buf', cobsDecode (Buffer.ofList (dest'.data.take size)) size writeSize =
        some (.ok, buf', x.length) ∧ buf'.data.take x.length = x) ↔
      Lossless 254 (runs x) := by
  obtain ⟨buf, rest, hdec, hdata⟩ := cobsDecode_cobsEncode hx hlen hr henc writeSize
  rw [← cap_eq, ← recovered_eq_self_iff]
  constructor
  · rintro ⟨buf', hdec', -⟩
    rw [hdec] at hdec'
    simp only [Option.some.injEq, Prod.mk.injEq, true_and] at hdec'
    exact recovered_eq_self_iff_length.mpr hdec'.2
  · intro hrec
    rw [hrec] at hdec hdata
    exact ⟨buf, hdec, by rw [hdata, List.take_left]⟩

/-- The round trip on a short message, with the hypotheses discharged. -/
theorem cobs_round_trip_short :
    (∃ buf', cobsDecode (Buffer.ofList [2, 1, 2, 2, 0]) 5 0 = some (.ok, buf', 3) ∧
        buf'.data.take 3 = [1, 0, 2]) ↔
      Lossless 254 (runs ([1, 0, 2] : List Byte)) :=
  cobs_round_trip_iff (by decide) (by decide) ⟨by decide, by decide⟩
    (show cobsEncode [1, 0, 2] (Buffer.replicate 5 0) 5 =
      some (.ok, ⟨[2, 1, 2, 2, 0], rfl⟩, 5) from rfl) 0

/-- A full block with a zero behind it. -/
def fullBlockZero : List Byte := List.replicate 254 1 ++ [0]

/-- **The lost zero**: the 255 bytes of `fullBlockZero` are encoded without error,
and decoding the frame without error returns 254 bytes. -/
theorem cobs_round_trip_loses_zero :
    fullBlockZero.length = 255 ∧ ∃ dest' size buf', cobsEncode fullBlockZero (Buffer.replicate 258 0) 258 =
        some (.ok, dest', size) ∧
      cobsDecode (Buffer.ofList (dest'.data.take size)) size 0 = some (.ok, buf', 254) := by
  have hlength : fullBlockZero.length = 255 := by
    rw [fullBlockZero, List.length_append, List.length_replicate]
    rfl
  have hne : fullBlockZero ≠ [] := by
    rw [← List.length_pos_iff_ne_nil, hlength]
    decide
  have hroom : Room 258 258 := ⟨by decide, by decide⟩
  have hlost : (recovered 0 fullBlockZero).length = 254 := by decide +kernel
  rcases cobsEncode_eq hne (Buffer.replicate 258 0) hroom (by decide) with
    ⟨hfull, -⟩ | ⟨-, dest', hok, -⟩
  · have hlen := length_stuff_le fullBlockZero
    rw [hlength, cap_eq] at hlen
    omega
  · obtain ⟨buf', -, hdec, -⟩ := cobsDecode_cobsEncode hne (by rw [hlength]; decide) hroom hok 0
    rw [hlost] at hdec
    exact ⟨hlength, dest', _, buf', hok, hdec⟩

end Houston
