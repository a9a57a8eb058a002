import Mathlib.Logic.Relation
import Houston.Cobs

/-!
# What framing promises on the byte level

Three results about the pair `cobs_encode` and `cobs_decode` of `dashboard/COBS.c`, on
top of the refinements of `Cobs`.

* `cobsEncode_exact` — how much space a frame takes, to the byte, and that the 8-bit
  counter of the encoder never wraps on the way.
* `cobsDecode_reference` — decoding in place is decoding from an unchanged buffer into a
  fresh list (`referenceDecode`): the writer stays behind the reader.
* `canonical` — frames without a full block are determined by their content.
-/

namespace Houston

open Stuffing

variable {n : ℕ}

/-! ## The space of a frame -/

/-- The code bytes a frame needs beside its first one: one for each 254 bytes of a maximal
run of non-zero bytes, if the run goes on behind them. -/
def extraCodes (x : List Byte) : ℕ :=
  (((x.splitOn 0).filter (· ≠ [])).map fun run => (run.length - 1) / 254).sum

/-- Empty runs cost nothing, so they may be counted or not. -/
theorem sum_filter_ne_nil (l : List (List Byte)) :
    ((l.filter (· ≠ [])).map fun run => (run.length - 1) / 254).sum =
      (l.map fun run => (run.length - 1) / 254).sum := by
  induction l with
  | nil => rfl
  | cons run l ih =>
    rcases run with - | ⟨b, run⟩
    · simpa using ih
    · simp only [ne_eq, reduceCtorEq, not_false_eq_true, decide_true, List.filter_cons_of_pos,
        List.map_cons, List.sum_cons]
      rw [← ih]

theorem extraCodes_eq (x : List Byte) : extraCodes x = overhead 254 (runs x) := by
  rw [extraCodes, sum_filter_ne_nil, overhead, runs, List.map_map]
  rfl

theorem length_frame (x : List Byte) : (stuff x).length = x.length + 2 + extraCodes x := by
  rw [length_stuff, extraCodes_eq, cap_eq]

/-- The encoder inside its input: the open block ends where the next byte goes, so the
counter is a distance, and it is one that a byte can hold. -/
theorem encodeLoop_counter {d : ℕ} {dest : Buffer Byte n} (hr : Room d n) (hpos : 0 < d)
    {pre : List Byte} {s : EncodeState n} (h : encodeLoop d pre ⟨dest, 1, 0, 1⟩ = some (.ok, s)) :
    1 ≤ s.counter ∧ s.counter ≤ 0xFF ∧ s.writeIndex = s.codeIndex + s.counter := by
  rcases encodeLoop_writing hr pre (Writing.init dest hr hpos) with
    ⟨s', out, run, hloop, hw, -⟩ | ⟨s', hloop, -⟩
  · obtain rfl : s' = s := by
      rw [hloop] at h
      simpa using h
    have hrun := hw.run_le
    have hcode := hw.code
    have hwrite := hw.write
    have hcounter := hw.counter
    omega
  · rw [hloop] at h
    cases h

/-- **The encoder is exact about space**: it succeeds precisely when there is room for the
input, the first code byte, the delimiter and the extra code bytes, and reports that size;
it writes nowhere else, whether it succeeds or not. -/
theorem cobsEncode_exact {x : List Byte} (hx : 1 ≤ x.length) {d : ℕ} (hpos : 1 ≤ d)
    (hd : d < 2 ^ 32) (dest : Buffer Byte d) :
    (∃ status dest' size, cobsEncode x dest d = some (status, dest', size) ∧
      (status = .ok ↔ x.length + 2 + extraCodes x ≤ d) ∧
      (status = .ok → size = x.length + 2 + extraCodes x ∧ Delimited (dest'.data.take size)) ∧
      (status ≠ .ok → size = d)) ∧
    ∀ pre s, pre <+: x → encodeLoop d pre ⟨dest, 1, 0, 1⟩ = some (.ok, s) →
      1 ≤ s.counter ∧ s.counter ≤ 0xFF ∧ s.writeIndex = s.codeIndex + s.counter := by
  have hr : Room d d := ⟨Nat.le_refl d, hd⟩
  refine ⟨?_, fun pre s _ h => encodeLoop_counter hr hpos h⟩
  rcases cobsEncode_eq (List.length_pos_iff_ne_nil.mp hx) dest hr hpos with
    ⟨hlong, dest', henc⟩ | ⟨hfits, dest', henc, hcopy⟩
  · rw [length_frame] at hlong
    exact ⟨_, dest', d, henc, iff_of_false (by decide) (Nat.not_le_of_lt hlong),
      fun h => absurd h (by decide), fun _ => rfl⟩
  · have hframe := Buffer.take_of_memcpy hcopy
    rw [length_frame] at hfits henc hframe
    refine ⟨_, dest', _, henc, iff_of_true rfl hfits, fun _ => ⟨rfl, ?_⟩, fun h => absurd rfl h⟩
    rw [hframe]
    exact delimited_stuff x

/-- Three bytes into five. -/
theorem cobsEncode_exact_three :
    (∃ status dest' size, cobsEncode [1, 0, 2] (Buffer.replicate 5 0) 5 =
        some (status, dest', size) ∧
      (status = .ok ↔ [1, 0, 2].length + 2 + extraCodes [1, 0, 2] ≤ 5) ∧
      (status = .ok → size = [1, 0, 2].length + 2 + extraCodes [1, 0, 2] ∧
        Delimited (dest'.data.take size)) ∧
      (status ≠ .ok → size = 5)) ∧
    ∀ pre s, pre <+: [1, 0, 2] →
      encodeLoop 5 pre ⟨Buffer.replicate 5 0, 1, 0, 1⟩ = some (.ok, s) →
      1 ≤ s.counter ∧ s.counter ≤ 0xFF ∧ s.writeIndex = s.codeIndex + s.counter :=
  cobsEncode_exact (by decide) (by decide) (by decide) _

/-! ## Decoding in place

The reference reads the frame from a list that nobody writes to. -/

/-- Decoding out of place: `counter` is the code in hand, `rest` what is still to be read
and `out` what has been put out. -/
def referenceBlocks (counter : Byte) (rest out : List Byte) : CobsDecodingStatus × List Byte :=
  if counter = 0 then (if rest = [] then .ok else .invalidDataSize, out)
  else
    match hrest : rest.drop (counter.toNat - 1) with
    | [] => (.invalidDataSize, out)
    | nextCounter :: rest' =>
      referenceBlocks nextCounter rest' (out ++ (rest.take (counter.toNat - 1) ++
        if counter ≠ 0xFF ∧ nextCounter ≠ 0 then [0] else []))
termination_by rest.length
decreasing_by
  have hlen := congrArg List.length hrest
  rw [List.length_drop, List.length_cons] at hlen
  omega

/-- The reference decoder: its status, the new `write_size` and its output. -/
def referenceDecode (input : List Byte) (writeSize : ℕ) : CobsDecodingStatus × ℕ × List Byte :=
  match input with
  | [] => (.invalidBufferSize, writeSize, [])
  | [_] => (.invalidBufferSize, writeSize, [])
  | counter :: rest =>
    match referenceBlocks counter rest [] with
    | (.ok, out) => (.ok, out.length, out)
    | (status, out) => (status, writeSize, out)

theorem referenceBlocks_zero (rest out : List Byte) :
    referenceBlocks 0 rest out = (if rest = [] then .ok else .invalidDataSize, out) := by
  rw [referenceBlocks, if_pos rfl]

theorem referenceBlocks_short {counter : Byte} (hc : counter ≠ 0) {rest : List Byte}
    (h : rest.length < counter.toNat) (out : List Byte) :
    referenceBlocks counter rest out = (.invalidDataSize, out) := by
  have hdrop : rest.drop (counter.toNat - 1) = [] := List.drop_eq_nil_of_le (by omega)
  rw [referenceBlocks, if_neg hc]
  split
  · rfl
  · rename_i hcons
    rw [hdrop] at hcons
    cases hcons

theorem referenceBlocks_block {counter : Byte} (hc : counter ≠ 0) {data : List Byte}
    (hdata : data.length = counter.toNat - 1) (nextCounter : Byte) (rest out : List Byte) :
    referenceBlocks counter (data ++ nextCounter :: rest) out =
      referenceBlocks nextCounter rest (out ++ (data ++
        if counter ≠ 0xFF ∧ nextCounter ≠ 0 then [0] else [])) := by
  have hdrop : (data ++ nextCounter :: rest).drop (counter.toNat - 1) = nextCounter :: rest :=
    List.drop_left' hdata
  have htake : (data ++ nextCounter :: rest).take (counter.toNat - 1) = data :=
    List.take_left' hdata
  conv_lhs => rw [referenceBlocks, if_neg hc]
  split
  · rename_i hnil
    rw [hdrop] at hnil
    cases hnil
  · rename_i next' rest' hcons
    rw [hdrop, List.cons.injEq] at hcons
    obtain ⟨rfl, rfl⟩ := hcons
    rw [htake]

/-- The status after the loop has ended with one: the delimiter has to be the last byte. -/
def DecodeState.finalStatus (s : DecodeState n) : CobsDecodingStatus → CobsDecodingStatus
  | .ok => if s.readIdx ≠ n then .invalidDataSize else .ok
  | status => status

theorem cobsDecode_of_loop {buf : Buffer Byte n} (hsize : ¬ n ≤ 1) {counter : Byte}
    (hget : buf.get? 0 = some counter) {status : CobsDecodingStatus} {s : DecodeState n}
    (hloop : decodeLoop n (n + 1) ⟨buf, 1, 0, counter⟩ = some (status, s)) (writeSize : ℕ) :
    cobsDecode buf n writeSize = some (s.finalStatus status, s.buf,
      if s.finalStatus status = .ok then s.writeIdx else writeSize) := by
  rw [cobsDecode, if_neg hsize, hget, Option.bind_eq_bind, Option.bind_some, hloop]
  cases status with
  | ok =>
    by_cases hread : s.readIdx ≠ n <;>
      simp [DecodeState.finalStatus, hread]
  | invalidBufferSize => rfl
  | invalidDataSize => rfl

theorem referenceDecode_cons (counter b : Byte) (rest : List Byte) (writeSize : ℕ) :
    referenceDecode (counter :: b :: rest) writeSize =
      ((referenceBlocks counter (b :: rest) []).1,
        if (referenceBlocks counter (b :: rest) []).1 = .ok
          then (referenceBlocks counter (b :: rest) []).2.length else writeSize,
        (referenceBlocks counter (b :: rest) []).2) := by
  rw [referenceDecode.eq_3 _ _ _ (List.cons_ne_nil b rest)]
  rcases referenceBlocks counter (b :: rest) [] with ⟨status, out⟩
  cases status <;> rfl

/-- With a good frame the reference reports the size of its output. -/
theorem referenceDecode_size {input : List Byte} {writeSize : ℕ}
    (h : (referenceDecode input writeSize).1 = .ok) :
    (referenceDecode input writeSize).2.1 = (referenceDecode input writeSize).2.2.length := by
  rcases input with - | ⟨counter, - | ⟨b, rest⟩⟩
  · cases h
  · cases h
  · rw [referenceDecode_cons] at h ⊢
    exact if_pos h

/-- The loop puts out what the reference does, by induction on the turns left. -/
theorem decodeLoop_reference (hn : n < 2 ^ 31) :
    ∀ (fuel : ℕ) {s : DecodeState n} {out l : List Byte}, Reading s out l → l.length < fuel →
      ∃ status s' rest, decodeLoop n fuel s = some (status, s') ∧
        s'.finalStatus status = (referenceBlocks s.counter l out).1 ∧
        s'.buf.data = (referenceBlocks s.counter l out).2 ++ rest ∧
        s'.writeIdx = (referenceBlocks s.counter l out).2.length := by
  intro fuel
  induction fuel with
  | zero => exact fun _ h => absurd h (Nat.not_lt_zero _)
  | succ fuel ih =>
    intro s out l hr hfuel
    by_cases hc : s.counter = 0
    · have hadd := hr.length_add
      obtain ⟨gap, hbuf, -⟩ := hr.data
      refine ⟨.ok, s, gap ++ l, by rw [decodeLoop, if_pos hc], ?_⟩
      rw [hc, referenceBlocks_zero]
      refine ⟨?_, hbuf, hr.write⟩
      rw [DecodeState.finalStatus]
      by_cases hl : l = []
      · rw [if_pos hl, if_neg (by rw [hl, List.length_nil] at hadd; omega)]
      · have := List.length_pos_of_ne_nil hl
        rw [if_neg hl, if_pos (by omega)]
    · rcases decodeBlock_reading hn hr hc with ⟨hshort, hblock⟩ |
        ⟨data, c', l', s', rfl, hdata, hblock, rfl, hr'⟩
      · obtain ⟨gap, hbuf, -⟩ := hr.data
        refine ⟨.invalidDataSize, s, gap ++ l, by rw [decodeLoop, if_neg hc, hblock]; rfl, ?_⟩
        rw [referenceBlocks_short hc hshort]
        exact ⟨rfl, hbuf, hr.write⟩
      · have hloop : decodeLoop n (fuel + 1) s = decodeLoop n fuel s' := by
          rw [decodeLoop, if_neg hc, hblock]
          rfl
        simp only [List.length_append, List.length_cons] at hfuel
        rw [hloop, referenceBlocks_block hc hdata]
        exact ih hr' (by omega)

/-- The states in which `cobs_decode` tests `counter != 0`: it starts a block there, or
stops. -/
def BlockStart (buf : Buffer Byte n) (s : DecodeState n) : Prop :=
  ∃ counter, buf.get? 0 = some counter ∧
    Relation.ReflTransGen (fun s s' => s.counter ≠ 0 ∧ decodeBlock n s = some (.ok, s'))
      ⟨buf, 1, 0, counter⟩ s

/-- Before the first block. -/
theorem Reading.init {buf : Buffer Byte n} {c : Byte} {l : List Byte} (h : buf.data = c :: l) :
    Reading (⟨buf, 1, 0, c⟩ : DecodeState n) [] l := ⟨⟨[c], h, rfl, by simp⟩, rfl⟩

/-- At every block start the writer is behind the reader, and what is still to be read is
as it was. -/
theorem BlockStart.reading (hn : n < 2 ^ 31) {buf : Buffer Byte n} {s : DecodeState n}
    (h : BlockStart buf s) : ∃ out l, Reading s out l ∧ l <:+ buf.data := by
  obtain ⟨c, hget, hreach⟩ := h
  induction hreach with
  | refl =>
    rcases hd : buf.data with - | ⟨c', l⟩
    · rw [Buffer.get?, hd] at hget
      cases hget
    · obtain rfl : c' = c := by simpa [Buffer.get?, hd] using hget
      exact ⟨[], l, Reading.init hd, List.suffix_cons c' l⟩
  | tail _ hstep ih =>
    obtain ⟨out, l, hr, hsuffix⟩ := ih
    obtain ⟨hc, hblock⟩ := hstep
    rcases decodeBlock_reading hn hr hc with ⟨-, hfail⟩ | ⟨data, c', l', s', rfl, -, hok, -, hr'⟩
    · rw [hfail] at hblock
      simp at hblock
    · rw [hok] at hblock
      obtain rfl := (Prod.mk.inj (Option.some.inj hblock)).2
      refine ⟨_, l', hr', List.IsSuffix.trans ?_ hsuffix⟩
      exact (List.suffix_cons c' l').trans (List.suffix_append data (c' :: l'))

/-- The writer is behind the reader. -/
theorem Reading.write_lt {s : DecodeState n} {out l : List Byte} (hr : Reading s out l) :
    s.writeIdx < s.readIdx := by
  obtain ⟨gap, -, hread, hgap⟩ := hr.data
  have := List.length_pos_of_ne_nil hgap
  rw [hr.write]
  omega

/-- The input not yet read is what stands behind the reader. -/
theorem Reading.drop_eq {s : DecodeState n} {out l : List Byte} (hr : Reading s out l) :
    s.buf.data.drop s.readIdx = l := by
  obtain ⟨gap, hbuf, hread, -⟩ := hr.data
  rw [hbuf, ← List.append_assoc, List.drop_left' (by rw [List.length_append, hread])]

/-- `cobs_decode` says and puts out what the reference does. -/
theorem cobsDecode_referenceDecode (hn : n < 2 ^ 31) (buf : Buffer Byte n) (writeSize : ℕ) :
    ∃ buf', cobsDecode buf n writeSize = some ((referenceDecode buf.data writeSize).1, buf',
        (referenceDecode buf.data writeSize).2.1) ∧
      (referenceDecode buf.data writeSize).2.2 <+: buf'.data := by
  have hlen := buf.length_data
  rcases hd : buf.data with - | ⟨c, l⟩
  · rw [hd, List.length_nil] at hlen
    exact ⟨buf, if_pos (by omega), List.nil_prefix⟩
  rcases l with - | ⟨c', l⟩
  · rw [hd, List.length_singleton] at hlen
    exact ⟨buf, if_pos (by omega), List.nil_prefix⟩
  rw [hd, List.length_cons, List.length_cons] at hlen
  have hget : buf.get? 0 = some c := Buffer.get?_of_eq (show buf.data = [] ++ c :: c' :: l from hd)
  have hsize : ¬ n ≤ 1 := by omega
  obtain ⟨status, s, rest, hloop, hstatus, hdata, hwrite⟩ :=
    decodeLoop_reference hn (n + 1) (Reading.init hd) (by rw [List.length_cons]; omega)
  rw [referenceDecode_cons]
  refine ⟨s.buf, ?_, hdata ▸ List.prefix_append _ rest⟩
  rw [cobsDecode_of_loop hsize hget hloop, hstatus, hwrite]

/-- **Decoding in place is safe**: on any buffer the decoder stops without having left it,
with the status, `write_size` and output of the reference on the original contents. At
every block start it writes behind the place it reads from, and all that it has yet to
read is untouched. -/
theorem cobsDecode_reference (hn : n < 2 ^ 31) (buf : Buffer Byte n) (writeSize : ℕ) :
    (∃ buf', cobsDecode buf n writeSize = some ((referenceDecode buf.data writeSize).1, buf',
        (referenceDecode buf.data writeSize).2.1) ∧
      buf'.data.take (referenceDecode buf.data writeSize).2.2.length =
        (referenceDecode buf.data writeSize).2.2) ∧
    (∀ s, BlockStart buf s →
      s.writeIdx < s.readIdx ∧ s.buf.data.drop s.readIdx = buf.data.drop s.readIdx) ∧
    ∀ buf' size, cobsDecode buf n writeSize = some (.ok, buf', size) →
      size = (referenceDecode buf.data writeSize).2.2.length ∧ size + 2 ≤ n := by
  obtain ⟨out, hdec, hprefix⟩ := cobsDecode_referenceDecode hn buf writeSize
  refine ⟨⟨out, hdec, (List.prefix_iff_eq_take.mp hprefix).symm⟩, fun s hs => ?_,
    fun buf' size hok => ⟨?_, ?_⟩⟩
  · obtain ⟨out, l, hr, hsuffix⟩ := hs.reading hn
    have hread : s.readIdx = buf.data.length - l.length := by
      have := hr.length_add
      rw [buf.length_data]
      omega
    refine ⟨hr.write_lt, ?_⟩
    rw [hr.drop_eq, hread]
    exact List.suffix_iff_eq_drop.mp hsuffix
  · rw [hok, Option.some.injEq, Prod.mk.injEq, Prod.mk.injEq] at hdec
    obtain ⟨hstatus, -, hsize⟩ := hdec
    rw [hsize]
    exact referenceDecode_size hstatus.symm
  · rcases cobsDecode_eq hn buf writeSize with ⟨y, buf'', rest, -, -, hdec', -, hspare⟩ |
      ⟨-, status, buf'', hdec', hstatus⟩
    · rw [hok, Option.some.injEq, Prod.mk.injEq, Prod.mk.injEq] at hdec'
      rw [hdec'.2.2]
      exact hspare
    · rw [hok, Option.some.injEq, Prod.mk.injEq] at hdec'
      exact absurd hdec'.1.symm hstatus

/-- A frame of five bytes. -/
theorem cobsDecode_reference_five :
    (∃ buf', cobsDecode (Buffer.ofList [2, 1, 2, 2, 0]) 5 0 =
        some ((referenceDecode [2, 1, 2, 2, 0] 0).1, buf',
          (referenceDecode [2, 1, 2, 2, 0] 0).2.1) ∧
      buf'.data.take (referenceDecode [2, 1, 2, 2, 0] 0).2.2.length =
        (referenceDecode [2, 1, 2, 2, 0] 0).2.2) ∧
    (∀ s : DecodeState 5, BlockStart (Buffer.ofList [2, 1, 2, 2, 0]) s →
      s.writeIdx < s.readIdx ∧
        s.buf.data.drop s.readIdx = List.drop s.readIdx [2, 1, 2, 2, 0]) ∧
    ∀ (buf' : Buffer Byte 5) (size : ℕ),
      cobsDecode (Buffer.ofList [2, 1, 2, 2, 0]) 5 0 = some (.ok, buf', size) →
      size = (referenceDecode [2, 1, 2, 2, 0] 0).2.2.length ∧ size + 2 ≤ 5 :=
  cobsDecode_reference (by decide) (Buffer.ofList [2, 1, 2, 2, 0]) 0

/-! ## Frames without a full block -/

/-- What decodes from a short frame encodes to it. -/
theorem stuff_of_decode {f : List Byte} (hlen : f.length ≤ 255) (hf : Delimited f)
    {writeSize size : ℕ} {buf' : Buffer Byte f.length}
    (hdec : cobsDecode (Buffer.ofList f) f.length writeSize = some (.ok, buf', size))
    (hsize : 0 < size) :
    buf'.data.take size ≠ [] ∧ stuff (buf'.data.take size) = f := by
  rcases cobsDecode_eq (show f.length < 2 ^ 31 by omega) (Buffer.ofList f) writeSize with
    ⟨y, buf'', rest, hy, hlong, hdec', hdata, -⟩ | ⟨-, status, buf'', hdec', hstatus⟩
  · rw [hdec, Option.some.injEq, Prod.mk.injEq, Prod.mk.injEq] at hdec'
    obtain ⟨-, rfl, rfl⟩ := hdec'
    rw [hdata, List.take_left]
    refine ⟨List.ne_nil_of_length_pos hsize, stuff_unstuff hf hlen hy ?_⟩
    rintro rfl
    exact absurd hlong (by decide)
  · rw [hdec, Option.some.injEq, Prod.mk.injEq] at hdec'
    exact absurd hdec'.1.symm hstatus

/-- **Frames without a full block are canonical**: encoding what such a frame decodes to
gives the frame back, so no other such frame decodes to the same packet. -/
theorem canonical {f : List Byte} (hlen : f.length ≤ 255) (hf : Delimited f)
    {writeSize size : ℕ} {buf' : Buffer Byte f.length}
    (hdec : cobsDecode (Buffer.ofList f) f.length writeSize = some (.ok, buf', size))
    (hsize : 0 < size) :
    (∀ (n destSize : ℕ) (dest : Buffer Byte n), Room destSize n → f.length ≤ destSize →
      ∃ dest', cobsEncode (buf'.data.take size) dest destSize = some (.ok, dest', f.length) ∧
        dest'.data.take f.length = f) ∧
    ∀ g : List Byte, g.length ≤ 255 → Delimited g →
      ∀ (writeSize' size' : ℕ) (buf'' : Buffer Byte g.length),
        cobsDecode (Buffer.ofList g) g.length writeSize' = some (.ok, buf'', size') →
        buf''.data.take size' = buf'.data.take size → g = f := by
  obtain ⟨hne, hstuff⟩ := stuff_of_decode hlen hf hdec hsize
  constructor
  · intro n destSize dest hr hfits
    have hpos : 0 < destSize := by
      rcases f with - | ⟨b, f⟩
      · obtain ⟨t, ht, -⟩ := hf
        simp at ht
      · exact Nat.lt_of_lt_of_le (by simp) hfits
    rcases cobsEncode_eq hne dest hr hpos with ⟨hlong, -⟩ | ⟨-, dest', henc, hcopy⟩
    · rw [hstuff] at hlong
      omega
    · have htake := Buffer.take_of_memcpy hcopy
      rw [hstuff] at henc htake
      exact ⟨dest', henc, htake⟩
  · intro g hglen hg writeSize' size' buf'' hdec' hsame
    have hsize' : 0 < size' := by
      rw [Nat.pos_iff_ne_zero]
      rintro rfl
      exact hne (by rw [← hsame, List.take_zero])
    rw [← hstuff, ← hsame, (stuff_of_decode hglen hg hdec' hsize').2]

/-- A frame of five bytes and its content. -/
theorem canonical_five :
    (∀ (n destSize : ℕ) (dest : Buffer Byte n), Room destSize n → 5 ≤ destSize →
      ∃ dest', cobsEncode [1, 0, 2] dest destSize = some (.ok, dest', 5) ∧
        dest'.data.take 5 = [2, 1, 2, 2, 0]) ∧
    ∀ g : List Byte, g.length ≤ 255 → Delimited g →
      ∀ (writeSize' size' : ℕ) (buf'' : Buffer Byte g.length),
        cobsDecode (Buffer.ofList g) g.length writeSize' = some (.ok, buf'', size') →
        buf''.data.take size' = [1, 0, 2] → g = [2, 1, 2, 2, 0] :=
  canonical (f := [2, 1, 2, 2, 0]) (by decide) ⟨[2, 1, 2, 2], rfl, by decide⟩
    (show cobsDecode (Buffer.ofList [2, 1, 2, 2, 0]) 5 0 = some (.ok, ⟨[1, 0, 2, 2, 0], rfl⟩, 3)
      from rfl) (by decide)

end Houston
