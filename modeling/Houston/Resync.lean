import Houston.Panel
import Houston.Streaming

/-!
# Recovery after noise

A header that the receiver refuses is dropped whole, twelve bytes at a time. Whether it
ever gets back in step with a packet that the host repeats is a matter of the positions
at which it starts on a header: noise puts them off, and steps of twelve bytes through
copies of a packet of 16 or 24 bytes do not come to every offset.

* `mem_parse_iff` — a packet is found where a header position stands at it.
* `recovers_iff_start` — recovery, as a matter of header positions.
* `start_eq_of_refused` — the positions, while no header is accepted.
* `recovers_iff` — recovery from noise, for the packets that the host sends.
-/

namespace Houston

open LiveDataPanel

variable {w : Firmware} {bs f j : List Byte}

/-! ## Header positions -/

/-- The position of the `n`-th header that the receiver starts on. -/
def headerStart (bs : List Byte) : ℕ → ℕ
  | 0 => 0
  | n + 1 => headerStart bs n + taken (bs.drop (headerStart bs n))

/-- The header positions behind the first one. -/
theorem headerStart_succ (bs : List Byte) (n : ℕ) :
    headerStart bs (n + 1) = taken bs + headerStart (bs.drop (taken bs)) n := by
  induction n with
  | zero => exact Nat.zero_add _
  | succ n ih => rw [headerStart, ih, headerStart, ← Nat.add_assoc, List.drop_drop]

/-- **A packet is found** where a header position stands at it. -/
theorem mem_parse_iff (hf : Framed f) (hgood : Good f) (bs : List Byte) :
    f ∈ parse bs ↔ ∃ n, f <+: bs.drop (headerStart bs n) := by
  have hfirst : ∀ bs : List Byte, f <+: bs → f ∈ parse bs := by
    rintro bs ⟨rest, rfl⟩
    rw [parse_framed hf hgood.1, if_pos hgood]
    exact List.mem_append_left _ (List.mem_singleton_self f)
  have hnext : ∀ (bs : List Byte) (n : ℕ), bs.drop (headerStart bs (n + 1)) =
      (bs.drop (taken bs)).drop (headerStart (bs.drop (taken bs)) n) := by
    intro bs n
    rw [headerStart_succ, List.drop_drop]
  induction bs using parse.induct with
  | case1 bs hread ih =>
    constructor
    · intro hmem
      rw [parse_eq hread.1 hread.2, List.mem_append] at hmem
      rcases hmem with hmem | hmem
      · rw [found] at hmem
        split_ifs at hmem
        · rw [List.mem_singleton.mp hmem]
          exact ⟨0, List.take_prefix ..⟩
        · cases hmem
      · obtain ⟨n, hn⟩ := ih.mp hmem
        exact ⟨n + 1, by rwa [hnext]⟩
    · rintro ⟨n, hn⟩
      cases n with
      | zero => exact hfirst bs hn
      | succ n =>
        rw [hnext] at hn
        rw [parse_eq hread.1 hread.2]
        exact List.mem_append_right _ (ih.mpr ⟨n, hn⟩)
  | case2 bs hread =>
    rw [parse, dif_neg hread]
    refine iff_of_false List.not_mem_nil ?_
    rintro ⟨n, hn⟩
    cases n with
    | zero =>
      have hmem := hfirst bs hn
      rw [parse, dif_neg hread] at hmem
      cases hmem
    | succ n =>
      -- the stream is too short for a packet behind the first header
      have hle := hn.length_le
      have htwelve := twelve_le_taken bs
      have hlt := hf.twelve_lt
      rw [hnext, List.length_drop, List.length_drop] at hle
      exact hread ⟨by omega, by omega⟩

/-! ## Noise and copies -/

/-- Copies of a packet, one behind the other. -/
def copies (n : ℕ) (f : List Byte) : List Byte := (List.replicate n f).flatten

theorem length_copies (n : ℕ) (f : List Byte) : (copies n f).length = n * f.length := by
  rw [copies, List.length_flatten, List.map_replicate, List.sum_replicate_nat]

theorem copies_add (m n : ℕ) (f : List Byte) : copies (m + n) f = copies m f ++ copies n f := by
  rw [copies, List.replicate_add, List.flatten_append]
  rfl

/-- What stands at a position of the noise and the copies behind it, as far as anything
there is looked at. -/
def view (j f : List Byte) (p : ℕ) : List Byte := (j ++ copies (p + 12) f).drop p

/-- The position of the `n`-th header that the receiver starts on, in the noise and
endless copies behind it. -/
def start (j f : List Byte) : ℕ → ℕ
  | 0 => 0
  | n + 1 => start j f n + taken (view j f (start j f n))

/-- There are always enough copies. -/
theorem length_view (hf : 0 < f.length) (p : ℕ) :
    p + 12 * f.length ≤ (j ++ copies (p + 12) f).length := by
  have hpos : p ≤ p * f.length := Nat.le_mul_of_pos_right p hf
  rw [List.length_append, length_copies, Nat.add_mul]
  omega

/-- The number of copies does not matter as long as they reach far enough. -/
theorem take_view (hf : 0 < f.length) {N p k : ℕ} (hk : k ≤ 12 * f.length)
    (hN : p + k ≤ (j ++ copies N f).length) :
    ((j ++ copies N f).drop p).take k = (view j f p).take k := by
  have hmore : ∀ {m n : ℕ}, m ≤ n → p + k ≤ (j ++ copies m f).length →
      (j ++ copies n f).take (p + k) = (j ++ copies m f).take (p + k) := by
    intro m n hmn hle
    obtain ⟨d, rfl⟩ := Nat.exists_eq_add_of_le hmn
    rw [copies_add, ← List.append_assoc, List.take_append_of_le_length hle]
  have hview : p + k ≤ (j ++ copies (p + 12) f).length :=
    Nat.le_trans (Nat.add_le_add_left hk p) (length_view hf p)
  rw [view, List.take_drop, List.take_drop]
  rcases Nat.le_total N (p + 12) with hle | hle
  · rw [hmore hle hN]
  · rw [hmore hle hview]

/-- The header positions do not depend on the number of copies. -/
theorem headerStart_eq_start (hf : 0 < f.length) (N : ℕ) : ∀ n : ℕ,
    headerStart (j ++ copies N f) n ≤ (j ++ copies N f).length ∨
        start j f n ≤ (j ++ copies N f).length →
      headerStart (j ++ copies N f) n = start j f n := by
  intro n
  induction n with
  | zero => exact fun _ => rfl
  | succ n ih =>
    intro hinside
    have hfirst := twelve_le_taken ((j ++ copies N f).drop (headerStart (j ++ copies N f) n))
    have hsecond := twelve_le_taken (view j f (start j f n))
    rw [headerStart, start] at hinside ⊢
    have hsame := ih (by omega)
    have htake : ((j ++ copies N f).drop (start j f n)).take 12 = (view j f (start j f n)).take 12 :=
      take_view hf (by omega) (by omega)
    rw [hsame, taken_congr htake]

/-! ## Recovery -/

/-- Enough copies of a packet behind the noise, however all this arrives, make the
firmware process the packet before it comes to an end. -/
def Recovers (w : Firmware) (j f : List Byte) : Prop :=
  ∃ N, ∀ slots, stream slots = j ++ copies N f → ∃ v, runSchedule slots w = some v ∧
    (Quiet v → ∃ new, processedPackets v.trace = processedPackets w.trace ++ new ∧ f ∈ new)

/-- The receiver recovers if it finds the packet in enough copies. -/
theorem Idle.recovers_iff_parse (h : Idle w) :
    Recovers w j f ↔ ∃ N, f ∈ parse (j ++ copies N f) := by
  constructor
  · rintro ⟨N, hN⟩
    obtain ⟨slots, v, hstream, hrun, hquiet, hprocessed⟩ := h.deliver (j ++ copies N f)
    obtain ⟨v', hrun', hnew⟩ := hN slots hstream
    cases hrun.symm.trans hrun'
    obtain ⟨new, hsame, hmem⟩ := hnew hquiet
    rw [← List.append_cancel_left (hprocessed.symm.trans hsame)] at hmem
    exact ⟨N, hmem⟩
  · rintro ⟨N, hmem⟩
    refine ⟨N, fun slots hstream => ?_⟩
    obtain ⟨v, hrun, hprocessed⟩ := h.schedule slots
    exact ⟨v, hrun, fun hquiet => ⟨_, hprocessed hquiet, hstream ▸ hmem⟩⟩

/-- **Recovery is a matter of the header positions**: one of them has to stand at the
packet. -/
theorem Idle.recovers_iff_start (h : Idle w) (hf : Framed f) (hgood : Good f) :
    Recovers w j f ↔ ∃ n, f <+: view j f (start j f n) := by
  have hpos : 0 < f.length := Nat.lt_of_lt_of_le (by decide) hf.twelve_le
  rw [h.recovers_iff_parse]
  constructor
  · rintro ⟨N, hmem⟩
    obtain ⟨n, hn⟩ := (mem_parse_iff hf hgood _).mp hmem
    have hinside := hn.length_le
    rw [List.length_drop] at hinside
    have hsame := headerStart_eq_start hpos N n (j := j) (Or.inl (by omega))
    rw [hsame] at hn hinside
    have htake := take_view hpos (k := f.length) (by omega)
      (show start j f n + f.length ≤ (j ++ copies N f).length by omega)
    refine ⟨n, List.prefix_iff_eq_take.mpr ?_⟩
    rw [← htake]
    exact List.prefix_iff_eq_take.mp hn
  · rintro ⟨n, hn⟩
    have hlen := length_view (j := j) hpos (start j f n)
    refine ⟨start j f n + 12, (mem_parse_iff hf hgood _).mpr ⟨n, ?_⟩⟩
    rw [headerStart_eq_start hpos _ n (Or.inr (by omega))]
    exact hn

/-! ## Steps of twelve bytes -/

/-- A position stands at one of the copies. -/
def AtCopy (j f : List Byte) (p : ℕ) : Prop := j.length ≤ p ∧ f.length ∣ p - j.length

/-- The packet is where its copies are. -/
theorem AtCopy.prefix_view (hf : 0 < f.length) {p : ℕ} (h : AtCopy j f p) : f <+: view j f p := by
  obtain ⟨hle, m, hm⟩ := h
  have hp : p = j.length + (copies m f).length := by
    rw [length_copies, Nat.mul_comm, ← hm]
    omega
  have hmore : m ≤ p := by
    have hpos : m ≤ m * f.length := Nat.le_mul_of_pos_right m hf
    rw [hp, length_copies]
    omega
  obtain ⟨d, hd⟩ : ∃ d, p + 12 = m + (1 + d) := ⟨p - m + 11, by omega⟩
  rw [view, hd, copies_add, copies_add, ← List.append_assoc, hp, ← List.length_append,
    List.drop_left]
  have hone : copies 1 f = f := by rw [copies, List.replicate_one, List.flatten_singleton]
  exact ⟨copies d f, by rw [hone]⟩

/-- **While no header is accepted**, the positions are twelve bytes apart. -/
theorem start_eq_of_refused {n : ℕ} (hrefused : ∀ m < n, ¬ Admits (view j f (12 * m))) :
    start j f n = 12 * n := by
  induction n with
  | zero => rfl
  | succ n ih =>
    have hstart := ih fun m hm => hrefused m (Nat.lt_succ_of_lt hm)
    have htaken : taken (view j f (12 * n)) = 12 := if_neg (hrefused n (Nat.lt_succ_self n))
    rw [start, hstart, htaken]
    omega

/-- **Recovery without accidental headers**: steps of twelve bytes have to come to a copy. -/
theorem start_iff_of_refused (hf : Framed f) (hgood : Good f)
    (hrefused : ∀ p, ¬ AtCopy j f p → ¬ Admits (view j f p)) :
    (∃ n, f <+: view j f (start j f n)) ↔ ∃ n, AtCopy j f (12 * n) := by
  classical
  have hpos : 0 < f.length := Nat.lt_of_lt_of_le (by decide) hf.twelve_le
  constructor
  · rintro ⟨n, hn⟩
    by_contra hnever
    have hstart : start j f n = 12 * n := start_eq_of_refused fun m _ =>
      hrefused _ fun hcopy => hnever ⟨m, hcopy⟩
    rw [hstart] at hn
    have hadmits : Admits (view j f (12 * n)) := by
      obtain ⟨rest, hrest⟩ := hn
      rw [← hrest, (announced_append hf.twelve_le rest).2]
      exact ⟨hf.1, hgood.1⟩
    exact hrefused _ (fun hcopy => hnever ⟨n, hcopy⟩) hadmits
  · intro hsome
    -- the first copy that the steps come to
    have hfirst := Nat.find_spec hsome
    refine ⟨Nat.find hsome, ?_⟩
    rw [start_eq_of_refused fun m hm => hrefused _ (Nat.find_min hsome hm)]
    exact hfirst.prefix_view hpos

/-- Behind the noise the view repeats itself. -/
theorem take_view_mod (hf : 0 < f.length) {p : ℕ} (hp : j.length ≤ p) :
    (view j f p).take 12 = (view [] f ((p - j.length) % f.length)).take 12 := by
  set m := (p - j.length) / f.length
  set o := (p - j.length) % f.length
  have hsplit : p = j.length + (copies m f).length + o := by
    have hdiv : m * f.length + o = p - j.length := Nat.div_add_mod' _ _
    rw [length_copies]
    omega
  have hmore : m ≤ p := Nat.le_trans (Nat.div_le_self _ _) (Nat.sub_le _ _)
  obtain ⟨d, hd⟩ : ∃ d, p + 12 = m + d := ⟨p + 12 - m, by omega⟩
  have hview : view j f p = ([] ++ copies d f).drop o := by
    rw [view, hd, copies_add, ← List.append_assoc, hsplit, ← List.length_append, ← List.drop_drop,
      List.drop_left, List.nil_append]
  have hlen := length_view (j := j) hf p
  rw [hview]
  refine take_view hf (by omega) ?_
  rw [hd, copies_add] at hlen
  simp only [List.length_append, List.length_nil] at hlen ⊢
  omega

/-! ## The packets of the host -/

/-- A packet as the host builds it. -/
inductive HostPacket : List Byte → Prop where
  | refresh {d : Dispatcher} {f : List Byte}
      (h : (refreshPackets d).2.txData = d.txData ++ [f]) : HostPacket f
  | modify {panel : LiveDataPanel} {packetID : Byte} {valueType : BitVec 16} {junk : BitVec 32}
      {d d' : Dispatcher} {f : List Byte}
      (h : panel.sendModifyPacket packetID valueType junk d = some d')
      (htx : d'.txData = d.txData ++ [f]) : HostPacket f

theorem bytes_request : (craftDashboardHeaderPacket PacketID.requestLiveData.code 0 0 0).toBytes ++
    wordBytes 4 (0 : BitVec 32) = request.bytes := rfl

/-- The packets of the host are packets of the protocol, of 16 or 24 bytes. -/
theorem HostPacket.exists_packet (h : HostPacket f) :
    ∃ p : Packet, p.bytes = f ∧ (f.length = 16 ∨ f.length = 24) := by
  cases h with
  | @refresh d f h =>
    have hf : request.bytes = f := by
      rw [← bytes_request]
      simpa [refreshPackets, Dispatcher.sendData] using h
    exact ⟨request, hf, Or.inl (hf ▸ length_request)⟩
  | @modify panel packetID valueType junk d d' f h htx =>
    rw [sendModifyPacket_eq, Option.map_eq_some_iff] at h
    obtain ⟨value, -, rfl⟩ := h
    obtain rfl := List.singleton_injective (List.append_cancel_left htx)
    refine ⟨_, rfl, Or.inr ?_⟩
    rw [Packet.length_bytes, modifyPacket, LiveDataPacket.length_toBytes, List.length_nil]

/-- Steps of twelve bytes come to a copy of a packet of 16 or 24 bytes if the noise is a
multiple of what the two sizes have in common. -/
theorem exists_atCopy_iff (hlen : f.length = 16 ∨ f.length = 24) :
    (∃ n, AtCopy j f (12 * n)) ↔ Nat.gcd 12 f.length ∣ j.length := by
  constructor
  · rintro ⟨n, hle, hdvd⟩
    have hsum : 12 * n = (12 * n - j.length) + j.length := by omega
    have hboth : Nat.gcd 12 f.length ∣ (12 * n - j.length) + j.length :=
      hsum ▸ (Nat.gcd_dvd_left 12 f.length).mul_right n
    exact (Nat.dvd_add_right ((Nat.gcd_dvd_right 12 f.length).trans hdvd)).mp hboth
  · rintro ⟨k, hk⟩
    rcases hlen with hlen | hlen
    · rw [hlen] at hk
      have hj : j.length = 4 * k := hk
      exact ⟨3 * k, by omega, 2 * k, by rw [hlen]; omega⟩
    · rw [hlen] at hk
      have hj : j.length = 12 * k := hk
      exact ⟨k, by omega, 0, by omega⟩

/-- **When the firmware recovers** from noise `j` by copies of a packet `f` of the host:
exactly when one of the positions at which it starts on a header stands at the packet.
If it accepts no header by accident, that is when the length of the noise is a multiple
of 4 for a request, and of 12 for a modify packet. -/
theorem recovers_iff (h : Idle w) (hf : HostPacket f) (j : List Byte) :
    (Recovers w j f ↔ ∃ n, f <+: view j f (start j f n)) ∧
      ((∀ p, ¬ AtCopy j f p → ¬ Admits (view j f p)) →
        (Recovers w j f ↔ Nat.gcd 12 f.length ∣ j.length)) := by
  obtain ⟨p, rfl, hlen⟩ := hf.exists_packet
  have hgood : Good p.bytes := by
    refine Packet.good_bytes ?_
    show _ ≤ 100
    omega
  have hstart := h.recovers_iff_start (j := j) p.framed_bytes hgood
  refine ⟨hstart, fun hrefused => ?_⟩
  rw [hstart, start_iff_of_refused p.framed_bytes hgood hrefused, exists_atCopy_iff hlen]

theorem hostPacket_request : HostPacket request.bytes := .refresh (d := Dispatcher.empty) rfl

/-- A zero byte in front of requests is not taken for the start of a packet, and neither is
anything inside a request. -/
theorem refused_request (p : ℕ) (hp : ¬ AtCopy [0] request.bytes p) :
    ¬ Admits (view [0] request.bytes p) := by
  have hfirst : ¬ Admits (view [0] request.bytes 0) := by decide +kernel
  have hinner : ∀ o < 16, o ≠ 0 → ¬ Admits (view [] request.bytes o) := by decide +kernel
  rcases Nat.eq_zero_or_pos p with rfl | hpos
  · exact hfirst
  · have hmod := take_view_mod (j := [0]) (f := request.bytes) (by decide +kernel) hpos
    rw [admits_congr hmod]
    have hlt := Nat.mod_lt (p - [(0 : Byte)].length) (show 0 < 16 by decide)
    rw [length_request]
    refine hinner _ hlt fun hzero => hp ⟨hpos, ?_⟩
    rw [length_request]
    exact Nat.dvd_of_mod_eq_zero hzero

/-- **One byte of noise is enough**: behind a single zero byte, no number of requests makes
the firmware process one of them. -/
theorem not_recovers_zero_byte :
    Idle (.boot fun _ => 0) ∧ HostPacket request.bytes ∧
      ¬ Recovers (.boot fun _ => 0) [0] request.bytes := by
  refine ⟨idle_boot _, hostPacket_request, ?_⟩
  have hgood : Good request.bytes := by decide +kernel
  rw [(idle_boot _).recovers_iff_start request.framed_bytes hgood,
    start_iff_of_refused request.framed_bytes hgood refused_request,
    exists_atCopy_iff (Or.inl length_request), length_request]
  decide

/-- The criterion for a zero byte in front of requests. -/
theorem recovers_iff_request :
    (Recovers (.boot fun _ => 0) [0] request.bytes ↔
        ∃ n, request.bytes <+: view [0] request.bytes (start [0] request.bytes n)) ∧
      (Recovers (.boot fun _ => 0) [0] request.bytes ↔
        Nat.gcd 12 request.bytes.length ∣ [(0 : Byte)].length) := by
  obtain ⟨hstart, hgcd⟩ := recovers_iff (idle_boot fun _ => 0) hostPacket_request [0]
  exact ⟨hstart, hgcd refused_request⟩

end Houston
